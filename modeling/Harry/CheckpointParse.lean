import Harry.CheckpointScan

/-! From the tokens of a checkpoint to the assignments in the message. The fixed parts are assigned where they were
read from. The entries are assigned from the index on that the parser has come to, and the index stands behind the
last of them afterwards. -/

namespace Harry.Checkpoint

open Harry.Sibling

/-- What an action does to the list of assignments. -/
def acted (active : Bool) (is : List Item) : List Store := if active then is.map Item.store else []

@[simp] theorem acted_nil (active : Bool) : acted active [] = [] := by
  cases active <;> rfl

theorem acted_append (active : Bool) (is js : List Item) :
    acted active (is ++ js) = acted active is ++ acted active js := by
  cases active
  · rfl
  · exact List.map_append

/-- The items of a structure that begins at a base. -/
def Fits (base : Nat) (layout : List Slot) (i : Item) : Prop :=
  (fieldsAt base layout).find? (fun f => f.key = i.key) = some ⟨i.key, i.off, i.width⟩

theorem key_mem_of_mem_items {frame : List UInt8} {src dst : Nat} {layout : List Slot} {i : Item}
    (h : i ∈ items frame src dst layout) : i.key ∈ layout.map Slot.key := by
  induction layout generalizing src dst with
  | nil => cases h
  | cons s fs ih =>
      rcases List.mem_cons.mp h with rfl | h
      · exact List.mem_cons_self
      · exact List.mem_cons_of_mem _ (ih h)

/-- In a structure without two fields of one word, an item is assigned where the field of its word is. -/
theorem fits_items (frame : List UInt8) (src base : Nat) (layout : List Slot) (h : (layout.map Slot.key).Nodup) :
    ∀ i ∈ items frame src base layout, Fits base layout i := by
  induction layout generalizing src base with
  | nil => exact fun i hi => by cases hi
  | cons s fs ih =>
      rw [List.map_cons, List.nodup_cons] at h
      intro i hi
      rcases List.mem_cons.mp hi with rfl | hi
      · exact List.find?_cons_of_pos (decide_eq_true rfl)
      · have hi' := ih (src + s.width) (base + s.width) h.2 i hi
        have hne : ¬ s.key = i.key := fun heq => h.1 (heq ▸ key_mem_of_mem_items hi)
        rw [Fits, fieldsAt, List.find?_cons_of_neg (by simpa using hne)]
        exact hi'

section Expression

variable {active : Bool} {base : Nat} {layout : List Slot} {idx : Indices} {st : List Store} {ts : List Token} {i : Item}

theorem assign_item : Parser.assign ⟨ts, idx, st, false⟩ active i.off i.width i.bits =
    ⟨ts, idx, st ++ acted active [i], false⟩ := by
  cases active
  · simp [Parser.assign, acted]
  · rfl

theorem eatComma_of_ne {t : Token} (ht : t ≠ .comma) :
    Parser.eatComma ⟨t :: ts, idx, st, false⟩ = ⟨t :: ts, idx, st, false⟩ := by
  cases t <;> first | exact absurd rfl ht | rfl

theorem expression_eq (h : Fits base layout i) :
    Parser.expression ⟨i.tokens ++ ts, idx, st, false⟩ active base layout =
      Parser.eatComma ⟨ts, idx, st ++ acted active [i], false⟩ := by
  unfold Fits at h
  simp only [Parser.expression, Item.tokens, List.cons_append, List.nil_append, Bool.false_eq_true, if_false, h]
  rw [assign_item]

theorem expression_comma (h : Fits base layout i) :
    Parser.expression ⟨i.tokens ++ .comma :: ts, idx, st, false⟩ active base layout =
      ⟨ts, idx, st ++ acted active [i], false⟩ :=
  expression_eq h

theorem expression_last {t : Token} (ht : t ≠ .comma) (h : Fits base layout i) :
    Parser.expression ⟨i.tokens ++ t :: ts, idx, st, false⟩ active base layout =
      ⟨t :: ts, idx, st ++ acted active [i], false⟩ :=
  (expression_eq h).trans (eatComma_of_ne ht)

end Expression

/-- Fields with a comma after each, one expression for each. -/
theorem iterate_comma {g : Parser → Parser} {active : Bool} {idx : Indices} {is : List Item}
    (hg : ∀ i ∈ is, ∀ ts st, g ⟨i.tokens ++ .comma :: ts, idx, st, false⟩ = ⟨ts, idx, st ++ acted active [i], false⟩)
    (ts : List Token) (st : List Store) :
    g^[is.length] ⟨is.flatMap (fun i => i.tokens ++ [.comma]) ++ ts, idx, st, false⟩ =
      ⟨ts, idx, st ++ acted active is, false⟩ := by
  induction is generalizing st with
  | nil => rw [acted_nil, List.append_nil]; rfl
  | cons i is ih =>
      rw [List.length_cons, Function.iterate_succ_apply, List.flatMap_cons, List.append_assoc, List.append_assoc,
        List.singleton_append, hg i List.mem_cons_self, ih fun j hj => hg j (List.mem_cons_of_mem i hj),
        List.append_assoc, ← acted_append]
      rfl

theorem joinedTokens_append_singleton (xs : List (List Token)) (x : List Token) :
    joinedTokens (xs ++ [x]) = xs.flatMap (fun y => y ++ [.comma]) ++ x := by
  induction xs with
  | nil => rfl
  | cons y ys ih =>
      cases ys with
      | nil => simp [joinedTokens]
      | cons z zs =>
          rw [List.flatMap_cons, List.append_assoc, List.append_assoc, ← ih]
          rfl

/-- Fields with a comma between them, one expression for each. -/
theorem iterate_joined {g : Parser → Parser} {active : Bool} (idx : Indices) (is : List Item) (hne : is ≠ [])
    (hcomma : ∀ i ∈ is, ∀ ts st, g ⟨i.tokens ++ .comma :: ts, idx, st, false⟩ = ⟨ts, idx, st ++ acted active [i], false⟩)
    (hlast : ∀ i ∈ is, ∀ ts st, g ⟨i.tokens ++ .closeBrace :: ts, idx, st, false⟩ =
      ⟨.closeBrace :: ts, idx, st ++ acted active [i], false⟩)
    (ts : List Token) (st : List Store) :
    g^[is.length] ⟨joinedTokens (is.map Item.tokens) ++ .closeBrace :: ts, idx, st, false⟩ =
      ⟨.closeBrace :: ts, idx, st ++ acted active is, false⟩ := by
  obtain ⟨init, i, rfl⟩ : ∃ init i, is = init ++ [i] := ⟨_, _, (List.dropLast_append_getLast hne).symm⟩
  have hmem : i ∈ init ++ [i] := List.mem_append_right init List.mem_cons_self
  rw [List.length_append, List.length_singleton, Function.iterate_succ_apply', List.map_append, List.map_singleton,
    joinedTokens_append_singleton, List.flatMap_map, List.append_assoc,
    iterate_comma fun j hj => hcomma j (List.mem_append_left [i] hj), hlast i hmem, List.append_assoc, ← acted_append]

/-- The tokens do not depend on where the numbers are assigned. -/
theorem tokens_items (frame : List UInt8) (src dst dst' : Nat) (fs : List Slot) :
    (items frame src dst fs).map Item.tokens = (items frame src dst' fs).map Item.tokens := by
  induction fs generalizing src dst dst' with
  | nil => rfl
  | cons f fs ih =>
      rw [items, items, List.map_cons, List.map_cons, ih (src + f.width) (dst + f.width) (dst' + f.width)]
      rfl

theorem header_parse (frame : List UInt8) (getHeader : Bool) (idx : Indices) (ts : List Token) (st : List Store) :
    Parser.header getHeader
        ⟨joinedTokens ((items frame 0 0 headerLayout).map Item.tokens) ++ .closeBrace :: ts, idx, st, false⟩ =
      ⟨.closeBrace :: ts, idx, st ++ acted getHeader (items frame 0 0 headerLayout), false⟩ := by
  have hfits := fits_items frame 0 0 headerLayout (by decide)
  exact iterate_joined (g := Parser.headerExpression getHeader) idx (items frame 0 0 headerLayout)
    (by simp [items, headerLayout])
    (fun i hi ts st => expression_comma (hfits i hi))
    (fun i hi ts st => expression_last (by decide) (hfits i hi)) ts st

/-! ### Entries -/

namespace Kind

/-- `adjacency` or `lsa_header`. -/
def entry : Kind → Bool → Parser → Parser
  | hello => Parser.adjacency
  | dbdesc => Parser.lsaHeader

/-- Where the next entry is assigned. -/
def place (k : Kind) (idx : Indices) : Nat := k.start + k.entrySize * k.index idx

/-- The indices after an entry. -/
def after (k : Kind) (getHeader : Bool) (idx : Indices) : Indices := if getHeader then idx else k.bump idx

end Kind

theorem entry_parse (k : Kind) (frame : List UInt8) (getHeader : Bool) (src : Nat) (idx : Indices) (ts : List Token)
    (st : List Store) :
    k.entry getHeader
        ⟨joinedTokens ((items frame src src k.entryLayout).map Item.tokens) ++ .closeBrace :: ts, idx, st, false⟩ =
      ⟨.closeBrace :: ts, k.after getHeader idx,
        st ++ acted (!getHeader) (items frame src (k.place idx) k.entryLayout), false⟩ := by
  cases k with
  | hello =>
      cases getHeader
      · rfl
      · simp [Kind.entry, Parser.adjacency, acted, Kind.after, Kind.entryLayout, adjacencyLayout, items, joinedTokens,
          Item.tokens]
  | dbdesc =>
      have hfits := fits_items frame src (Kind.dbdesc.place idx) lsaHeaderLayout (by decide)
      have hiter := iterate_joined (g := Parser.lsaExpression getHeader) idx
        (items frame src (Kind.dbdesc.place idx) lsaHeaderLayout) (by simp [items, lsaHeaderLayout])
        (fun i hi ts st => expression_comma (hfits i hi))
        (fun i hi ts st => expression_last (by decide) (hfits i hi)) ts st
      have h7 : lsaHeaderLayout.length = 7 := rfl
      rw [tokens_items frame src _ src, length_items, h7] at hiter
      show Parser.lsaHeaderParsed getHeader ((Parser.lsaExpression getHeader)^[7] _) = _
      rw [Kind.entryLayout, hiter]
      cases getHeader <;> rfl

/-- What the entries at the offsets are assigned to. -/
def entriesActed (k : Kind) (frame : List UInt8) (getHeader : Bool) : Indices → List Nat → List Store
  | _, [] => []
  | idx, off :: offs =>
      acted (!getHeader) (items frame off (k.place idx) k.entryLayout) ++
        entriesActed k frame getHeader (k.after getHeader idx) offs

/-- The indices after a number of entries. -/
def Kind.afterAll (k : Kind) (getHeader : Bool) (idx : Indices) (offs : List Nat) : Indices :=
  offs.foldl (fun idx _ => k.after getHeader idx) idx

section Array

variable {k : Kind} {frame : List UInt8} {getHeader : Bool} {idx : Indices} {ts : List Token} {st : List Store}

/-- The tokens of the entries at the offsets, and the end of the array. -/
def entriesTokens (k : Kind) (frame : List UInt8) (offs : List Nat) (ts : List Token) : List Token :=
  joinedTokens (offs.map fun off => structTokens frame off k.entryLayout) ++ .closeBracket :: ts

theorem entriesTokens_cons (k : Kind) (frame : List UInt8) (ts : List Token) (off : Nat) (offs : List Nat) :
    ∃ x, entriesTokens k frame (off :: offs) ts = .openBrace :: .keyword (k.entryLayout.headD ⟨.age, 0⟩).key :: x := by
  cases k <;> cases offs <;> exact ⟨_, rfl⟩

theorem length_le_entriesTokens (offs : List Nat) : offs.length ≤ (entriesTokens k frame offs ts).length := by
  induction offs with
  | nil => exact Nat.zero_le _
  | cons off offs ih =>
      cases offs with
      | nil =>
          simp only [entriesTokens, List.length_append, List.length_cons, List.length_nil]
          omega
      | cons off' offs =>
          simp only [entriesTokens, List.map_cons, joinedTokens, List.length_append, List.length_cons] at ih ⊢
          omega

theorem element_parse (off : Nat) (offs : List Nat) :
    Parser.element ⟨entriesTokens k frame (off :: offs) ts, idx, st, false⟩ (k.entry getHeader) =
      ⟨entriesTokens k frame offs ts, k.after getHeader idx,
        st ++ acted (!getHeader) (items frame off (k.place idx) k.entryLayout), false⟩ := by
  have hentry := entry_parse k frame getHeader off idx
  cases offs with
  | nil =>
      have htokens : entriesTokens k frame [off] ts = .openBrace ::
          (joinedTokens ((items frame off off k.entryLayout).map Item.tokens) ++ .closeBrace :: .closeBracket :: ts) := by
        simp [entriesTokens, joinedTokens, structTokens, bracedTokens]
      rw [htokens]
      show (((k.entry getHeader ⟨_, idx, st, false⟩).eat .closeBrace).eatComma) = _
      rw [hentry]
      rfl
  | cons off' offs =>
      have htokens : entriesTokens k frame (off :: off' :: offs) ts = .openBrace ::
          (joinedTokens ((items frame off off k.entryLayout).map Item.tokens) ++ .closeBrace :: .comma ::
            entriesTokens k frame (off' :: offs) ts) := by
        simp [entriesTokens, joinedTokens, structTokens, bracedTokens]
      rw [htokens]
      show (((k.entry getHeader ⟨_, idx, st, false⟩).eat .closeBrace).eatComma) = _
      rw [hentry]
      rfl

theorem elements_parse (offs : List Nat) {fuel : Nat} (hfuel : offs.length ≤ fuel) :
    Parser.elements (k.entry getHeader) fuel ⟨entriesTokens k frame offs ts, idx, st, false⟩ =
      ⟨.closeBracket :: ts, k.afterAll getHeader idx offs, st ++ entriesActed k frame getHeader idx offs, false⟩ := by
  induction offs generalizing fuel idx st with
  | nil =>
      rw [entriesActed, List.append_nil]
      cases fuel <;> rfl
  | cons off offs ih =>
      obtain ⟨fuel, rfl⟩ := Nat.exists_eq_add_of_le' (Nat.le_trans (Nat.le_add_left 1 offs.length) hfuel)
      have helement : Parser.element ⟨entriesTokens k frame (off :: offs) ts, idx, st, false⟩ (k.entry getHeader) = _ :=
        element_parse off offs
      obtain ⟨x, hx⟩ := entriesTokens_cons k frame ts off offs
      rw [hx] at helement ⊢
      show Parser.elements (k.entry getHeader) fuel (Parser.element ⟨.openBrace :: _ :: x, idx, st, false⟩ _) = _
      rw [helement, ih (Nat.le_of_succ_le_succ hfuel), List.append_assoc]
      rfl

/-- The whole array. -/
theorem arrayBody_parse :
    Parser.arrayBody getHeader ⟨arrayTokens frame k ++ ts, idx, st, false⟩ =
      ⟨ts, k.afterAll getHeader idx (k.entries frame), st ++ entriesActed k frame getHeader idx (k.entries frame),
        false⟩ := by
  have htokens : arrayTokens frame k ++ ts = .openBracket :: entriesTokens k frame (k.entries frame) ts := by
    simp [arrayTokens, entriesTokens]
  rw [htokens]
  generalize k.entries frame = offs
  cases offs with
  | nil =>
      rw [entriesActed, List.append_nil]
      rfl
  | cons off offs =>
      have hfuel : offs.length ≤ (entriesTokens k frame (off :: offs) ts).length :=
        Nat.le_trans (Nat.le_succ _) (length_le_entriesTokens (off :: offs))
      have hloop : (Parser.elements (k.entry getHeader) (entriesTokens k frame (off :: offs) ts).length
          (Parser.element ⟨entriesTokens k frame (off :: offs) ts, idx, st, false⟩ (k.entry getHeader))).eat
            .closeBracket = ⟨ts, k.afterAll getHeader idx (off :: offs),
              st ++ entriesActed k frame getHeader idx (off :: offs), false⟩ := by
        rw [element_parse, elements_parse offs hfuel, List.append_assoc]
        rfl
      obtain ⟨x, hx⟩ := entriesTokens_cons k frame ts off offs
      rw [hx] at hloop ⊢
      -- the first word of the first entry selects the kind
      cases k <;> exact hloop

end Array

theorem helloExpression_comma (key : Keyword) {getHeader : Bool} {n : Nat} {idx : Indices} {ts : List Token}
    {st : List Store} :
    Parser.helloExpression getHeader ⟨.keyword key :: .number n :: .comma :: ts, idx, st, false⟩ =
      Parser.expression ⟨.keyword key :: .number n :: .comma :: ts, idx, st, false⟩ (!getHeader) 16 helloLayout := by
  cases key <;> rw [Parser.helloExpression]

namespace Kind

/-- The expressions of the fixed part after the header. -/
def fixed : Kind → Bool → Parser → Parser
  | hello, getHeader => (Parser.helloExpression getHeader)^[9]
  | dbdesc, getHeader => (Parser.dbdescExpression getHeader)^[8]

/-- `hello` or `dbdesc`. -/
def body (k : Kind) (getHeader : Bool) (p : Parser) : Parser :=
  ((k.fixed getHeader p).eat (.keyword k.arrayWord)).arrayBody getHeader

end Kind

/-- The fixed part, with a comma after every field. -/
theorem fixed_parse (k : Kind) (frame : List UInt8) (getHeader : Bool) (idx : Indices) (ts : List Token)
    (st : List Store) :
    k.fixed getHeader
        ⟨(items frame 16 16 k.layout).flatMap (fun i => Item.tokens i ++ [Token.comma]) ++ ts, idx, st, false⟩ =
      ⟨ts, idx, st ++ acted (!getHeader) (items frame 16 16 k.layout), false⟩ := by
  cases k with
  | hello =>
      have hfits := fits_items frame 16 16 helloLayout (by decide)
      exact iterate_comma (g := Parser.helloExpression getHeader)
        (fun i hi ts st => (helloExpression_comma i.key).trans (expression_comma (hfits i hi))) ts st
  | dbdesc =>
      have hfits := fits_items frame 16 16 dbdescLayout (by decide)
      exact iterate_comma (g := Parser.dbdescExpression getHeader)
        (fun i hi ts st => expression_comma (hfits i hi)) ts st

theorem body_parse (k : Kind) (frame : List UInt8) (getHeader : Bool) (idx : Indices) (ts : List Token)
    (st : List Store) :
    k.body getHeader ⟨joinedTokens ((items frame 16 16 k.layout).map Item.tokens ++
        [.keyword k.arrayWord :: arrayTokens frame k]) ++ ts, idx, st, false⟩ =
      ⟨ts, k.afterAll getHeader idx (k.entries frame), st ++ acted (!getHeader) (items frame 16 16 k.layout) ++
        entriesActed k frame getHeader idx (k.entries frame), false⟩ := by
  have heat : ∀ st, Parser.eat ⟨.keyword k.arrayWord :: (arrayTokens frame k ++ ts), idx, st, false⟩
      (.keyword k.arrayWord) = ⟨arrayTokens frame k ++ ts, idx, st, false⟩ := fun st => if_pos rfl
  rw [joinedTokens_append_singleton, List.flatMap_map, List.append_assoc, List.cons_append, Kind.body, fixed_parse,
    heat, arrayBody_parse]

/-- What a parse of a message assigns. -/
def messageActed (k : Kind) (frame : List UInt8) (getHeader : Bool) (idx : Indices) : List Store :=
  acted getHeader (items frame 0 0 headerLayout) ++ acted (!getHeader) (items frame 16 16 k.layout) ++
    entriesActed k frame getHeader idx (k.entries frame)

theorem statement_header (frame : List UInt8) (getHeader : Bool) (idx : Indices) (fuel : Nat) (ts : List Token) :
    Parser.statement getHeader (fuel + 1) ⟨structTokens frame 0 headerLayout ++ ts, idx, [], false⟩ =
      ⟨ts, idx, acted getHeader (items frame 0 0 headerLayout), false⟩ := by
  have htokens : structTokens frame 0 headerLayout ++ ts = .openBrace ::
      (joinedTokens ((items frame 0 0 headerLayout).map Item.tokens) ++ .closeBrace :: ts) := by
    simp [structTokens, bracedTokens]
  rw [htokens]
  show (Parser.header getHeader ⟨_, idx, [], false⟩).eat .closeBrace = _
  rw [header_parse]
  rfl

theorem statement_message (k : Kind) (frame : List UInt8) (getHeader : Bool) (idx : Indices) (fuel : Nat) :
    Parser.statement getHeader (fuel + 2) ⟨messageTokens frame k, idx, [], false⟩ =
      ⟨[], k.afterAll getHeader idx (k.entries frame), messageActed k frame getHeader idx, false⟩ := by
  have htokens : messageTokens frame k = .openBrace :: .keyword .header :: (structTokens frame 0 headerLayout ++
      .comma :: .keyword k.word :: .openBrace :: (joinedTokens ((items frame 16 16 k.layout).map Item.tokens ++
        [.keyword k.arrayWord :: arrayTokens frame k]) ++ [.closeBrace, .closeBrace])) := by
    simp [messageTokens, bodyTokens, bracedTokens, joinedTokens]
  rw [htokens]
  show ((Parser.statement getHeader (fuel + 1) ⟨_, idx, [], false⟩).message getHeader).eat .closeBrace = _
  rw [statement_header]
  have hbody := body_parse k frame getHeader idx [.closeBrace, .closeBrace]
    (acted getHeader (items frame 0 0 headerLayout))
  cases k with
  | hello =>
      show ((Kind.body .hello getHeader ⟨_, idx, _, false⟩).eat .closeBrace).eat .closeBrace = _
      rw [hbody]
      rfl
  | dbdesc =>
      show ((Kind.body .dbdesc getHeader ⟨_, idx, _, false⟩).eat .closeBrace).eat .closeBrace = _
      rw [hbody]
      rfl

/-- A parse of the text of a message. -/
theorem yyparse_messageText (k : Kind) (frame : List UInt8) (getHeader : Bool) (idx : Indices) :
    yyparse getHeader (messageText frame k) idx =
      ⟨[], k.afterAll getHeader idx (k.entries frame), messageActed k frame getHeader idx, false⟩ := by
  obtain ⟨n, hn⟩ : ∃ n, (messageTokens frame k).length = n + 2 := by
    refine ⟨(messageTokens frame k).length - 2, ?_⟩
    have hlen : 2 ≤ (messageTokens frame k).length := by
      simp [messageTokens, bracedTokens, joinedTokens]
    omega
  have hne : ¬ (false = true ∨ messageTokens frame k = []) := by
    rintro (h | h)
    · exact Bool.false_ne_true h
    · rw [h] at hn
      cases hn
  rw [yyparse, scan_messageText, hn, Parser.line, if_neg hne]
  simp only [hn]
  rw [statement_message]
  rfl

theorem entriesActed_true (k : Kind) (frame : List UInt8) (idx : Indices) (offs : List Nat) :
    entriesActed k frame true idx offs = [] := by
  induction offs generalizing idx with
  | nil => rfl
  | cons off offs ih => exact ih _

theorem afterAll_true (k : Kind) (idx : Indices) (offs : List Nat) : k.afterAll true idx offs = idx := by
  induction offs with
  | nil => rfl
  | cons off offs ih => exact ih

/-- What the two parses of a stored message assign, in the order of the message, and where they leave the indices. -/
theorem jsonParse_put {k : Kind} {frame : List UInt8} {text : List Char} (h : k.put frame = some text)
    (idx : Indices) :
    jsonParse text idx =
      ((items frame 0 0 headerLayout).map Item.store ++ (items frame 16 16 k.layout).map Item.store ++
        entriesActed k frame false idx (k.entries frame), k.afterAll false idx (k.entries frame)) := by
  rw [eq_of_put h, jsonParse, yyparse_messageText, afterAll_true, yyparse_messageText]
  simp [messageActed, entriesActed_true, acted]

end Harry.Checkpoint
