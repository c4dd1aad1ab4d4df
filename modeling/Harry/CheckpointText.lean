import Mathlib.Algebra.Group.Nat.Defs
import Mathlib.Data.List.Basic

/-! The text in which a sibling keeps the messages it has handled, as the scanner of `json_lexer.l` sees it. The text
is written by `sprintf`, every number with `%d`; the scanner knows numbers without a sign only, and it goes over every
character that it does not know. -/

namespace Harry.Checkpoint

/-- The words the scanner knows. -/
inductive Keyword where
  | header | hello | dbdesc
  | routerId | areaId | version | type | length | checksum | instanceId | reserved
  | interfaceId | priority | options0 | options1 | options2 | helloInterval | deadInterval | drouter | bdrouter
  | routerIds | reserved1 | reserved2 | ifmtu | bits | seqnum | lsaHeaders | age | id | advRouter
  deriving DecidableEq, Repr

namespace Keyword

/-- A word with the colon and the space that belong to it. -/
def text : Keyword → List Char
  | header => "header: ".toList
  | hello => "hello: ".toList
  | dbdesc => "dbdesc: ".toList
  | routerId => "router_id: ".toList
  | areaId => "area_id: ".toList
  | version => "version: ".toList
  | type => "type: ".toList
  | length => "length: ".toList
  | checksum => "checksum: ".toList
  | instanceId => "instance_id: ".toList
  | reserved => "reserved: ".toList
  | interfaceId => "interface_id: ".toList
  | priority => "priority: ".toList
  | options0 => "options_0: ".toList
  | options1 => "options_1: ".toList
  | options2 => "options_2: ".toList
  | helloInterval => "hello_interval: ".toList
  | deadInterval => "dead_interval: ".toList
  | drouter => "drouter: ".toList
  | bdrouter => "bdrouter: ".toList
  | routerIds => "router_ids: ".toList
  | reserved1 => "reserved1: ".toList
  | reserved2 => "reserved2: ".toList
  | ifmtu => "ifmtu: ".toList
  | bits => "bits: ".toList
  | seqnum => "seqnum: ".toList
  | lsaHeaders => "lsa_headers: ".toList
  | age => "age: ".toList
  | id => "id: ".toList
  | advRouter => "adv_router: ".toList

/-- The words in the order of the rules. -/
def all : List Keyword :=
  [header, hello, dbdesc, routerId, areaId, version, type, length, checksum, instanceId, reserved, interfaceId,
    priority, options0, options1, options2, helloInterval, deadInterval, drouter, bdrouter, routerIds, reserved1,
    reserved2, ifmtu, bits, seqnum, lsaHeaders, age, id, advRouter]

/-- The word a text begins with. No word is the begin of another one, so the longest match is the only one. -/
def at? (s : List Char) : Option Keyword := all.find? fun k => k.text.isPrefixOf s

theorem text_eq_cons (k : Keyword) : ∃ c cs, k.text = c :: cs ∧ c.isDigit = false ∧ c.isLower = true := by
  cases k <;> exact ⟨_, _, rfl, rfl, rfl⟩

theorem at?_of_not_isLower {c : Char} (hc : c.isLower = false) (rest : List Char) : at? (c :: rest) = none := by
  apply List.find?_eq_none.mpr
  intro k _ hpre
  obtain ⟨c', cs, htext, -, hlower⟩ := k.text_eq_cons
  rw [htext, List.isPrefixOf_iff_prefix, List.cons_prefix_cons] at hpre
  rw [hpre.1, hc] at hlower
  exact Bool.false_ne_true hlower

theorem text_isPrefixOf_all :
    (all.all fun k => all.all fun k' => !k.text.isPrefixOf k'.text || k == k') = true := by
  decide

theorem eq_of_text_isPrefixOf {k k' : Keyword} (h : k.text <+: k'.text) : k = k' := by
  have hmem : ∀ k : Keyword, k ∈ all := by
    intro k
    cases k <;> decide
  have hall := List.all_eq_true.mp (List.all_eq_true.mp text_isPrefixOf_all k (hmem k)) k' (hmem k')
  rw [List.isPrefixOf_iff_prefix.mpr h, Bool.not_true, Bool.false_or] at hall
  exact eq_of_beq hall

theorem isPrefixOf_text (k k' : Keyword) (rest : List Char) :
    k'.text.isPrefixOf (k.text ++ rest) = decide (k' = k) := by
  apply Bool.eq_iff_iff.mpr
  rw [List.isPrefixOf_iff_prefix, decide_eq_true_iff]
  constructor
  · intro h
    -- of two begins of one text, one is a begin of the other
    rcases List.prefix_or_prefix_of_prefix h (List.prefix_append k.text rest) with h | h
    · exact eq_of_text_isPrefixOf h
    · exact (eq_of_text_isPrefixOf h).symm
  · rintro rfl
    exact List.prefix_append _ _

theorem at?_text (k : Keyword) (rest : List Char) : at? (k.text ++ rest) = some k := by
  have hfind : all.find? (fun k' => decide (k' = k)) = some k := by
    cases k <;> rfl
  rw [at?, funext fun k' => isPrefixOf_text k k' rest]
  exact hfind

end Keyword

inductive Token where
  /-- The bits of the `int` in `yylval`. -/
  | number (bits : Nat)
  | openBrace | closeBrace | comma | openBracket | closeBracket
  | keyword (k : Keyword)
  deriving DecidableEq, Repr

/-- `atoi`, which is `(int) strtol`: the low 32 bits of a `long` that does not go beyond its maximum. -/
def atoi (digits : List Char) : Nat := min (Nat.ofDigitChars 10 digits 0) (2 ^ 63 - 1) % 2 ^ 32

/-- The rules with one character. White space is ignored and so is, after a message on the terminal, any character
that no rule knows. -/
def punctuation : Char → Option Token
  | '{' => some .openBrace
  | '}' => some .closeBrace
  | ',' => some .comma
  | '[' => some .openBracket
  | ']' => some .closeBracket
  | _ => none

/-- One match of the scanner: its token, if it has one, and the text after it. -/
def scanOne : List Char → Option (Option Token × List Char)
  | [] => none
  | c :: cs =>
      if c.isDigit then
        some (some (.number (atoi ((c :: cs).takeWhile Char.isDigit))), (c :: cs).dropWhile Char.isDigit)
      else match Keyword.at? (c :: cs) with
        | some k => some (some (.keyword k), (c :: cs).drop k.text.length)
        | none => some (punctuation c, cs)

theorem length_scanOne_lt {s rest : List Char} {t : Option Token} (h : scanOne s = some (t, rest)) :
    rest.length < s.length := by
  cases s with
  | nil => cases h
  | cons c cs =>
      rw [scanOne] at h
      by_cases hc : c.isDigit
      · rw [if_pos hc] at h
        cases h
        rw [List.dropWhile_cons_of_pos hc]
        exact Nat.lt_succ_of_le (List.dropWhile_suffix _).length_le
      · rw [if_neg hc] at h
        cases hk : Keyword.at? (c :: cs) with
        | none =>
            rw [hk] at h
            cases h
            exact Nat.lt_succ_self _
        | some k =>
            rw [hk] at h
            cases h
            have hpos : 0 < k.text.length := by
              cases k <;> decide
            rw [List.length_drop]
            simp only [List.length_cons]
            omega

/-- `yylex`, call by call until the end of the buffer. -/
def scan (s : List Char) : List Token :=
  match _h : scanOne s with
  | none => []
  | some (t, rest) => t.toList ++ scan rest
termination_by s.length
decreasing_by exact length_scanOne_lt _h

@[simp] theorem scan_nil : scan [] = [] := by
  rw [scan]
  rfl

theorem scan_of_scanOne {s rest : List Char} {t : Option Token} (h : scanOne s = some (t, rest)) :
    scan s = t.toList ++ scan rest := by
  rw [scan]
  split
  · rename_i hnone
    cases hnone.symm.trans h
  · rename_i t' rest' hsome
    cases hsome.symm.trans h
    rfl

@[simp] theorem scan_keyword (k : Keyword) (rest : List Char) : scan (k.text ++ rest) = .keyword k :: scan rest := by
  have h : scanOne (k.text ++ rest) = some (some (.keyword k), rest) := by
    obtain ⟨c, cs, htext, hc, -⟩ := k.text_eq_cons
    have hat := Keyword.at?_text k rest
    have hdrop : (k.text ++ rest).drop k.text.length = rest := List.drop_left
    rw [htext, List.cons_append] at hat hdrop ⊢
    rw [scanOne, if_neg (by rw [hc]; exact Bool.false_ne_true), hat]
    simp only [htext, hdrop]
  rw [scan_of_scanOne h]
  rfl

section Characters

/-- A character that no word begins with. -/
theorem scan_cons {c : Char} (hdigit : c.isDigit = false) (hlower : c.isLower = false) (rest : List Char) :
    scan (c :: rest) = (punctuation c).toList ++ scan rest := by
  apply scan_of_scanOne
  rw [scanOne, if_neg (by rw [hdigit]; exact Bool.false_ne_true), Keyword.at?_of_not_isLower hlower]

variable (rest : List Char)

@[simp] theorem scan_openBrace : scan ('{' :: rest) = .openBrace :: scan rest := scan_cons rfl rfl rest

@[simp] theorem scan_closeBrace : scan ('}' :: rest) = .closeBrace :: scan rest := scan_cons rfl rfl rest

@[simp] theorem scan_comma : scan (',' :: rest) = .comma :: scan rest := scan_cons rfl rfl rest

@[simp] theorem scan_openBracket : scan ('[' :: rest) = .openBracket :: scan rest := scan_cons rfl rfl rest

@[simp] theorem scan_closeBracket : scan (']' :: rest) = .closeBracket :: scan rest := scan_cons rfl rfl rest

@[simp] theorem scan_space : scan (' ' :: rest) = scan rest := scan_cons rfl rfl rest

/-- A sign is no character the scanner knows. -/
@[simp] theorem scan_minus : scan ('-' :: rest) = scan rest := scan_cons rfl rfl rest

end Characters

/-! ### Numbers -/

/-- `sprintf` with `%d` of an unsigned field that has `v` in it: a number of 32 bits is taken for an `int`. -/
def formatD (v : Nat) : List Char :=
  if v < 2 ^ 31 then Nat.toDigits 10 v else '-' :: Nat.toDigits 10 (2 ^ 32 - v)

/-- What the scanner makes of it. -/
def reread (v : Nat) : Nat := if v < 2 ^ 31 then v else 2 ^ 32 - v

theorem reread_eq_iff {v : Nat} (hv : v < 2 ^ 32) : reread v = v ↔ v ≤ 2 ^ 31 := by
  unfold reread
  split <;> omega

theorem scan_toDigits {n : Nat} (hn : n < 2 ^ 32) {c : Char} (hc : c.isDigit = false) (rest : List Char) :
    scan (Nat.toDigits 10 n ++ c :: rest) = .number n :: scan (c :: rest) := by
  have hdigit : ∀ d ∈ Nat.toDigits 10 n, d.isDigit = true := fun d hd =>
    Nat.isDigit_of_mem_toDigits (by decide) (by decide) hd
  have htake : (Nat.toDigits 10 n ++ c :: rest).takeWhile Char.isDigit = Nat.toDigits 10 n := by
    rw [List.takeWhile_append_of_pos hdigit, List.takeWhile_cons_of_neg (by rw [hc]; exact Bool.false_ne_true),
      List.append_nil]
  have hdrop : (Nat.toDigits 10 n ++ c :: rest).dropWhile Char.isDigit = c :: rest := by
    rw [List.dropWhile_append_of_pos hdigit, List.dropWhile_cons_of_neg (by rw [hc]; exact Bool.false_ne_true)]
  have hatoi : atoi (Nat.toDigits 10 n) = n := by
    rw [atoi, Nat.ofDigitChars_ten_toDigits]
    omega
  have hone : scanOne (Nat.toDigits 10 n ++ c :: rest) = some (some (.number n), c :: rest) := by
    obtain ⟨d, ds, hds⟩ := List.exists_cons_of_ne_nil (Nat.toDigits_ne_nil (n := n) (b := 10))
    have hd : d.isDigit = true := hdigit d (hds ▸ List.mem_cons_self)
    rw [hds, List.cons_append] at htake hdrop ⊢
    rw [scanOne, if_pos hd, htake, hdrop, ← hds, hatoi]
  rw [scan_of_scanOne hone]
  rfl

/-- A number in front of a character that ends it: the sign is lost. -/
theorem scan_formatD {v : Nat} (hv : v < 2 ^ 32) {c : Char} (hc : c.isDigit = false) (rest : List Char) :
    scan (formatD v ++ c :: rest) = .number (reread v) :: scan (c :: rest) := by
  unfold formatD reread
  by_cases h : v < 2 ^ 31
  · rw [if_pos h, if_pos h]
    exact scan_toDigits hv hc rest
  · rw [if_neg h, if_neg h, List.cons_append, scan_minus]
    exact scan_toDigits (by omega) hc rest

end Harry.Checkpoint
