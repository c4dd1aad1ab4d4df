import Mathlib.Data.List.Forall2
import Harry.CheckpointJson

/-! From the text of a checkpoint to its tokens. The text is scanned to what was printed, but for the sign of a
number: where a field of 32 bits has more than `2 ^ 31` in it, `reread` says what the scanner makes of it. -/

namespace Harry.Checkpoint

open Harry.Sibling

/-- The two kinds of messages that are stored. -/
inductive Kind where
  | hello | dbdesc
  deriving DecidableEq, Repr

namespace Kind

/-- The word of the message. -/
def word : Kind → Keyword
  | hello => .hello
  | dbdesc => .dbdesc

/-- The fixed part after the header. -/
def layout : Kind → List Slot
  | hello => helloLayout
  | dbdesc => dbdescLayout

/-- The word of the entries. -/
def arrayWord : Kind → Keyword
  | hello => .routerIds
  | dbdesc => .lsaHeaders

/-- Where the entries begin. -/
def start : Kind → Nat
  | hello => 36
  | dbdesc => 28

def entrySize : Kind → Nat
  | hello => 4
  | dbdesc => 20

def entryLayout : Kind → List Slot
  | hello => adjacencyLayout
  | dbdesc => lsaHeaderLayout

/-- The text that is stored. -/
def put : Kind → List UInt8 → Option (List Char)
  | hello => ospf6DbPutHello
  | dbdesc => ospf6DbPutDbdesc

/-- The index that the entries are assigned through. -/
def index : Kind → Indices → Nat
  | hello, idx => idx.routerId
  | dbdesc, idx => idx.lsaHeader

/-- The indices after one entry. -/
def bump : Kind → Indices → Indices
  | hello, idx => { idx with routerId := idx.routerId + 1 }
  | dbdesc, idx => { idx with lsaHeader := idx.lsaHeader + 1 }

/-- Where the entries of a message are. -/
def entries (k : Kind) (frame : List UInt8) : List Nat := entryOffsets frame k.start k.entrySize

end Kind

section Text

variable (frame : List UInt8)

def structText (off : Nat) (layout : List Slot) : List Char := braced ((fieldsAt off layout).map (fieldText frame))

def arrayText (k : Kind) : List Char :=
  '[' :: (joined ((k.entries frame).map fun off => structText frame off k.entryLayout) ++ [']'])

/-- The whole text of a message. -/
def messageText (k : Kind) : List Char :=
  braced [Keyword.header.text ++ structText frame 0 headerLayout,
    k.word.text ++ braced ((fieldsAt 16 k.layout).map (fieldText frame) ++ [k.arrayWord.text ++ arrayText frame k])]

end Text

theorem eq_of_sprintf {size : Nat} {x text : List Char} (h : sprintf size x = some text) : text = x := by
  unfold sprintf at h
  split at h
  · exact (Option.some.inj h).symm
  · cases h

theorem eq_of_mapM {α β : Type} {f : α → Option β} {g : α → β} (hfg : ∀ a b, f a = some b → b = g a) {l : List α}
    {l' : List β} (h : l.mapM f = some l') : l' = l.map g := by
  induction l generalizing l' with
  | nil =>
      cases h
      rfl
  | cons a l ih =>
      rw [List.mapM_cons, Option.bind_eq_bind, Option.bind_eq_some_iff] at h
      obtain ⟨b, hb, h⟩ := h
      rw [Option.bind_eq_bind, Option.bind_eq_some_iff] at h
      obtain ⟨bs, hbs, h⟩ := h
      cases h
      rw [hfg a b hb, ih hbs]
      rfl

theorem eq_of_jsonArray {size : Nat} {frame : List UInt8} {k : Kind} {text : List Char}
    (h : jsonArray size frame k.start k.entrySize k.entryLayout = some text) : text = arrayText frame k := by
  unfold jsonArray at h
  rw [Option.bind_eq_bind, Option.bind_eq_some_iff] at h
  obtain ⟨entries, hentries, h⟩ := h
  rw [eq_of_sprintf h, eq_of_mapM (g := fun off => structText frame off k.entryLayout)
    (fun off b hb => eq_of_sprintf hb) hentries]
  rfl

/-- What is stored, where it fits. -/
theorem eq_of_put {k : Kind} {frame : List UInt8} {text : List Char} (h : k.put frame = some text) :
    text = messageText frame k := by
  cases k with
  | hello =>
      simp only [Kind.put, ospf6DbPutHello, Option.bind_eq_bind, Option.bind_eq_some_iff] at h
      obtain ⟨header, hheader, array, harray, msg, hmsg, h⟩ := h
      rw [eq_of_sprintf h, eq_of_sprintf hmsg, eq_of_jsonArray (k := .hello) harray, eq_of_sprintf hheader]
      rfl
  | dbdesc =>
      simp only [Kind.put, ospf6DbPutDbdesc, Option.bind_eq_bind, Option.bind_eq_some_iff] at h
      obtain ⟨header, hheader, array, harray, msg, hmsg, h⟩ := h
      rw [eq_of_sprintf h, eq_of_sprintf hmsg, eq_of_jsonArray (k := .dbdesc) harray, eq_of_sprintf hheader]
      rfl

/-! ### Its tokens -/

/-- A text that is scanned to the tokens whatever comes after it, but for a digit. -/
def Scans (x : List Char) (ts : List Token) : Prop :=
  ∀ c rest, c.isDigit = false → scan (x ++ c :: rest) = ts ++ scan (c :: rest)

/-- Tokens with a comma between them. -/
def joinedTokens : List (List Token) → List Token
  | [] => []
  | [x] => x
  | x :: xs => x ++ .comma :: joinedTokens xs

def bracedTokens (xs : List (List Token)) : List Token := .openBrace :: (joinedTokens xs ++ [.closeBrace])

namespace Scans

theorem keyword (k : Keyword) {x : List Char} {ts : List Token} (h : Scans x ts) :
    Scans (k.text ++ x) (.keyword k :: ts) := by
  intro c rest hc
  rw [List.append_assoc, scan_keyword, h c rest hc]
  rfl

theorem joined {xs : List (List Char)} {tss : List (List Token)} (h : List.Forall₂ Scans xs tss) :
    Scans (joined xs) (joinedTokens tss) := by
  induction h with
  | nil => exact fun c rest _ => rfl
  | @cons x ts xs tss hx htail ih =>
      cases htail with
      | nil => exact hx
      | @cons x' ts' xs tss hx' htail =>
          intro c rest hc
          simp only [Checkpoint.joined, joinedTokens, List.append_assoc, List.cons_append]
          rw [hx ',' _ rfl, scan_comma, scan_space]
          rw [ih c rest hc]

theorem braced {xs : List (List Char)} {tss : List (List Token)} (h : List.Forall₂ Scans xs tss) :
    Scans (braced xs) (bracedTokens tss) := by
  intro c rest hc
  simp only [Checkpoint.braced, bracedTokens, List.cons_append, List.append_assoc, List.nil_append]
  rw [scan_openBrace, joined h '}' _ rfl, scan_closeBrace]

end Scans

theorem load_lt (bs : List UInt8) (off w : Nat) : load bs off w < 2 ^ (8 * w) := by
  induction w generalizing off with
  | zero => exact Nat.one_pos
  | succ w ih =>
      have hb := (u8At bs off).toNat_lt
      have hrest := ih (off + 1)
      have hpow : 2 ^ (8 * (w + 1)) = 2 ^ 8 * 2 ^ (8 * w) := by
        rw [← Nat.pow_add]
        congr 1
        omega
      simp only [load]
      omega

/-- A number that is read for a field. -/
structure Item where
  key : Keyword
  off : Nat
  width : Nat
  bits : Nat

def Item.tokens (i : Item) : List Token := [.keyword i.key, .number i.bits]

def Item.store (i : Item) : Store := ⟨i.off, i.width, i.bits⟩

/-- What the fields of a structure at `src` give for those of one at `dst`. -/
def items (frame : List UInt8) : Nat → Nat → List Slot → List Item
  | _, _, [] => []
  | src, dst, f :: fs =>
      ⟨f.key, dst, f.width, reread (load frame src f.width)⟩ :: items frame (src + f.width) (dst + f.width) fs

@[simp] theorem length_items (frame : List UInt8) (src dst : Nat) (fs : List Slot) :
    (items frame src dst fs).length = fs.length := by
  induction fs generalizing src dst with
  | nil => rfl
  | cons f fs ih =>
      rw [items, List.length_cons, ih]
      rfl

/-- No field is wider than a number of the text. -/
def Narrow (fs : List Slot) : Prop := ∀ f ∈ fs, f.width ≤ 4

instance (fs : List Slot) : Decidable (Narrow fs) := inferInstanceAs (Decidable (∀ f ∈ fs, f.width ≤ 4))

theorem scans_fields {frame : List UInt8} {src : Nat} (dst : Nat) {fs : List Slot} (hfs : Narrow fs) :
    List.Forall₂ Scans ((fieldsAt src fs).map (fieldText frame)) ((items frame src dst fs).map Item.tokens) := by
  induction fs generalizing src dst with
  | nil => exact .nil
  | cons f fs ih =>
      refine .cons ?_ (ih (dst + f.width) fun f' hf' => hfs f' (List.mem_cons_of_mem f hf'))
      have hlt : load frame src f.width < 2 ^ 32 := by
        have hw : 8 * f.width ≤ 32 := by
          have := hfs f List.mem_cons_self
          omega
        exact Nat.lt_of_lt_of_le (load_lt frame src f.width) (Nat.pow_le_pow_right (by decide) hw)
      apply Scans.keyword
      intro c rest hc
      rw [scan_formatD hlt hc]
      rfl

theorem narrow_headerLayout : Narrow headerLayout := by decide

theorem Kind.narrow_layout (k : Kind) : Narrow k.layout := by
  cases k <;> decide

theorem Kind.narrow_entryLayout (k : Kind) : Narrow k.entryLayout := by
  cases k <;> decide

section Tokens

variable (frame : List UInt8)

def structTokens (off : Nat) (layout : List Slot) : List Token :=
  bracedTokens ((items frame off off layout).map Item.tokens)

def arrayTokens (k : Kind) : List Token :=
  .openBracket :: (joinedTokens ((k.entries frame).map fun off => structTokens frame off k.entryLayout) ++
    [.closeBracket])

def bodyTokens (k : Kind) : List Token :=
  bracedTokens ((items frame 16 16 k.layout).map Item.tokens ++ [.keyword k.arrayWord :: arrayTokens frame k])

def messageTokens (k : Kind) : List Token :=
  bracedTokens [.keyword .header :: structTokens frame 0 headerLayout, .keyword k.word :: bodyTokens frame k]

variable {frame}

theorem scans_structText {off : Nat} {layout : List Slot} (h : Narrow layout) :
    Scans (structText frame off layout) (structTokens frame off layout) :=
  .braced (scans_fields off h)

theorem scans_arrayText (k : Kind) : Scans (arrayText frame k) (arrayTokens frame k) := by
  have hentries : List.Forall₂ Scans ((k.entries frame).map fun off => structText frame off k.entryLayout)
      ((k.entries frame).map fun off => structTokens frame off k.entryLayout) := by
    rw [List.forall₂_map_left_iff, List.forall₂_map_right_iff, List.forall₂_same]
    exact fun off _ => scans_structText k.narrow_entryLayout
  intro c rest hc
  simp only [arrayText, arrayTokens, List.cons_append, List.append_assoc, List.nil_append]
  rw [scan_openBracket, Scans.joined hentries ']' _ rfl, scan_closeBracket]

/-- The text of a message is scanned to its tokens. -/
theorem scan_messageText (k : Kind) : scan (messageText frame k) = messageTokens frame k := by
  have hbody : List.Forall₂ Scans
      ((fieldsAt 16 k.layout).map (fieldText frame) ++ [k.arrayWord.text ++ arrayText frame k])
      ((items frame 16 16 k.layout).map Item.tokens ++ [.keyword k.arrayWord :: arrayTokens frame k]) :=
    List.rel_append (scans_fields 16 k.narrow_layout) (.cons (.keyword _ (scans_arrayText k)) .nil)
  have hmessage : List.Forall₂ Scans
      [Keyword.header.text ++ structText frame 0 headerLayout, k.word.text ++ braced _]
      [.keyword .header :: structTokens frame 0 headerLayout, .keyword k.word :: bodyTokens frame k] :=
    .cons (.keyword _ (scans_structText narrow_headerLayout)) (.cons (.keyword _ (.braced hbody)) .nil)
  rw [messageText, braced, scan_openBrace, Scans.joined hmessage '}' [] rfl, scan_closeBrace, scan_nil]
  rfl

end Tokens

end Harry.Checkpoint
