import Mathlib.Algebra.Ring.Nat
import Mathlib.Data.Nat.Log
import Harry.CheckpointScan

/-! Whether the text of a message fits into the buffers that `ospf6_db_put_hello` and `ospf6_db_put_dbdesc` put it
together in. Every text but one is short whatever the numbers are; the one with the list grows with the neighbors of a
Hello or the LSA headers of a Database Description, and its buffer does not. -/

namespace Harry.Checkpoint

open Harry.Sibling

/-- The characters that `%d` makes of a field of at most 32 bits. -/
def decimalWidth (v : Nat) : Nat := if v < 2 ^ 31 then Nat.log 10 v + 1 else Nat.log 10 (2 ^ 32 - v) + 2

theorem length_toDigits (n : Nat) : (Nat.toDigits 10 n).length = Nat.log 10 n + 1 := by
  have hle (k : Nat) : (Nat.toDigits 10 n).length ≤ k + 1 ↔ n < 10 ^ (k + 1) :=
    Nat.length_toDigits_le_iff (by decide) (Nat.succ_pos k)
  apply Nat.le_antisymm
  · exact (hle _).mpr (Nat.lt_pow_succ_log_self (by decide) n)
  · by_contra hlt
    have hpos : 0 < (Nat.toDigits 10 n).length := Nat.length_toDigits_pos
    obtain ⟨k, hk⟩ : ∃ k, (Nat.toDigits 10 n).length = k + 1 := ⟨_, (Nat.succ_pred_eq_of_pos hpos).symm⟩
    have hlog : Nat.log 10 n < k + 1 := Nat.log_lt_of_lt_pow' (Nat.succ_ne_zero k) ((hle k).mp (Nat.le_of_eq hk))
    omega

theorem length_formatD (v : Nat) : (formatD v).length = decimalWidth v := by
  unfold formatD decimalWidth
  split
  · exact length_toDigits v
  · rw [List.length_cons, length_toDigits]

theorem log_lt {v k : Nat} (hk : k ≠ 0) (hv : v < 10 ^ k) : Nat.log 10 v + 1 ≤ k := Nat.log_lt_of_lt_pow' hk hv

theorem decimalWidth_byte {v : Nat} (hv : v < 2 ^ 8) : decimalWidth v ≤ 3 := by
  rw [decimalWidth, if_pos (by omega)]
  exact log_lt (by decide) (by omega)

theorem decimalWidth_short {v : Nat} (hv : v < 2 ^ 16) : decimalWidth v ≤ 5 := by
  rw [decimalWidth, if_pos (by omega)]
  exact log_lt (by decide) (by omega)

theorem decimalWidth_word (v : Nat) (hv : v < 2 ^ 32) : decimalWidth v ≤ 11 := by
  rw [decimalWidth]
  split
  · exact Nat.le_succ_of_le (log_lt (by decide) (by omega))
  · exact Nat.succ_le_succ (log_lt (by decide) (by omega))

/-- The most characters of a field of so many bytes. -/
def Slot.room (f : Slot) : Nat := if f.width ≤ 1 then 3 else if f.width ≤ 2 then 5 else 11

theorem decimalWidth_load_le (frame : List UInt8) (off : Nat) {f : Slot} (hf : f.width ≤ 4) :
    decimalWidth (load frame off f.width) ≤ f.room := by
  have hlt := load_lt frame off f.width
  have hle : 2 ^ (8 * f.width) ≤ 2 ^ 32 := Nat.pow_le_pow_right (by decide) (by omega)
  unfold Slot.room
  split
  case isTrue h1 =>
    have hle1 : 2 ^ (8 * f.width) ≤ 2 ^ 8 := Nat.pow_le_pow_right (by decide) (by omega)
    exact decimalWidth_byte (by omega)
  case isFalse h1 =>
    split
    case isTrue h2 =>
      have hle2 : 2 ^ (8 * f.width) ≤ 2 ^ 16 := Nat.pow_le_pow_right (by decide) (by omega)
      exact decimalWidth_short (by omega)
    case isFalse h2 => exact decimalWidth_word _ (by omega)

theorem length_joined {xs : List (List Char)} (hne : xs ≠ []) :
    (joined xs).length + 2 = (xs.map fun x => x.length + 2).sum := by
  induction xs with
  | nil => exact absurd rfl hne
  | cons x xs ih =>
      cases xs with
      | nil => rfl
      | cons y ys =>
          have hjoined : joined (x :: y :: ys) = x ++ ',' :: ' ' :: joined (y :: ys) := rfl
          rw [hjoined, List.map_cons, List.sum_cons, ← ih (List.cons_ne_nil y ys)]
          simp only [List.length_append, List.length_cons]
          omega

theorem length_braced {xs : List (List Char)} (hne : xs ≠ []) :
    (braced xs).length = (xs.map fun x => x.length + 2).sum := by
  rw [← length_joined hne, braced, List.length_cons, List.length_append, List.length_singleton]

/-- The characters of the numbers of a structure. -/
def fieldsWidth (frame : List UInt8) (off : Nat) (layout : List Slot) : Nat :=
  ((fieldsAt off layout).map fun f => decimalWidth (load frame f.off f.width)).sum

/-- The characters of its words, with a separator after each field. -/
def keysWidth (layout : List Slot) : Nat := (layout.map fun f => f.key.text.length + 2).sum

theorem sum_fieldTexts (frame : List UInt8) (off : Nat) (layout : List Slot) :
    (((fieldsAt off layout).map (fieldText frame)).map fun x => x.length + 2).sum =
      keysWidth layout + fieldsWidth frame off layout := by
  induction layout generalizing off with
  | nil => rfl
  | cons f layout ih =>
      have hkeys : keysWidth (f :: layout) = f.key.text.length + 2 + keysWidth layout := List.sum_cons
      have hfields : fieldsWidth frame off (f :: layout) =
          decimalWidth (load frame off f.width) + fieldsWidth frame (off + f.width) layout := List.sum_cons
      rw [fieldsAt, List.map_cons, List.map_cons, List.sum_cons, ih, hkeys, hfields, fieldText, List.length_append,
        length_formatD]
      dsimp only
      omega

theorem fieldsWidth_le (frame : List UInt8) (off : Nat) {layout : List Slot} (h : Narrow layout) :
    fieldsWidth frame off layout ≤ (layout.map Slot.room).sum := by
  induction layout generalizing off with
  | nil => exact Nat.le_refl 0
  | cons f layout ih =>
      have hfirst := decimalWidth_load_le frame off (h f List.mem_cons_self)
      have hrest := ih (off + f.width) fun g hg => h g (List.mem_cons_of_mem f hg)
      have hfields : fieldsWidth frame off (f :: layout) =
          decimalWidth (load frame off f.width) + fieldsWidth frame (off + f.width) layout := List.sum_cons
      rw [hfields, List.map_cons, List.sum_cons]
      omega

theorem length_structText (frame : List UInt8) (off : Nat) {layout : List Slot} (hne : layout ≠ []) :
    (structText frame off layout).length = keysWidth layout + fieldsWidth frame off layout := by
  have hne' : (fieldsAt off layout).map (fieldText frame) ≠ [] := by
    cases layout with
    | nil => exact absurd rfl hne
    | cons f layout => exact List.cons_ne_nil _ _
  rw [structText, length_braced hne', sum_fieldTexts]

/-- The array of a message: an entry has two characters of its own, a separator or the brackets. -/
theorem length_arrayText {frame : List UInt8} {k : Kind} (hne : k.entries frame ≠ []) :
    (arrayText frame k).length =
      ((k.entries frame).map fun off => keysWidth k.entryLayout + 2 + fieldsWidth frame off k.entryLayout).sum := by
  have hlayout : k.entryLayout ≠ [] := by
    cases k <;> exact List.cons_ne_nil _ _
  have hne' : ((k.entries frame).map fun off => structText frame off k.entryLayout) ≠ [] :=
    fun hnil => hne (List.map_eq_nil_iff.mp hnil)
  have hjoined := length_joined hne'
  rw [arrayText, List.length_cons, List.length_append, List.length_singleton, hjoined, List.map_map]
  apply congrArg List.sum
  apply List.map_congr_left
  intro off _
  rw [Function.comp_apply, length_structText frame off hlayout]
  omega

/-! ### The buffers -/

section Buffers

variable (frame : List UInt8) (k : Kind)

theorem sprintf_of_lt {size : Nat} {text : List Char} (h : text.length < size) : sprintf size text = some text :=
  if_pos h

theorem isSome_sprintf (size : Nat) (text : List Char) : (sprintf size text).isSome = true ↔ text.length < size := by
  unfold sprintf
  split
  case isTrue h => exact ⟨fun _ => h, fun _ => rfl⟩
  case isFalse h => exact ⟨fun hsome => (Bool.false_ne_true hsome).elim, fun hlt => absurd hlt h⟩

theorem mapM_of_forall {α β : Type} {f : α → Option β} {g : α → β} {l : List α} (h : ∀ a ∈ l, f a = some (g a)) :
    l.mapM f = some (l.map g) := by
  induction l with
  | nil => rfl
  | cons a l ih =>
      rw [List.mapM_cons, h a List.mem_cons_self, ih fun b hb => h b (List.mem_cons_of_mem a hb)]
      rfl

/-- The text of the header is at most 136 characters long. -/
theorem length_headerText : (structText frame 0 headerLayout).length ≤ 136 := by
  have hwidth := fieldsWidth_le frame 0 narrow_headerLayout
  have hkeys : keysWidth headerLayout = 92 := by decide
  have hroom : (headerLayout.map Slot.room).sum = 44 := by decide
  rw [length_structText frame 0 (by decide)]
  omega

theorem length_entryText (off : Nat) : (structText frame off k.entryLayout).length < dataSize := by
  have hwidth := fieldsWidth_le frame off k.narrow_entryLayout
  have hlayout : k.entryLayout ≠ [] := by
    cases k <;> exact List.cons_ne_nil _ _
  have hsum : keysWidth k.entryLayout + (k.entryLayout.map Slot.room).sum < dataSize := by
    cases k <;> decide
  rw [length_structText frame off hlayout]
  omega

theorem ospf6DbJsonHeader_eq : ospf6DbJsonHeader frame = some (structText frame 0 headerLayout) :=
  sprintf_of_lt (Nat.lt_of_le_of_lt (length_headerText frame) (by decide))

theorem jsonArray_eq (size : Nat) :
    jsonArray size frame k.start k.entrySize k.entryLayout = sprintf size (arrayText frame k) := by
  have hentries : ((entryOffsets frame k.start k.entrySize).mapM fun off =>
      sprintf dataSize (braced ((fieldsAt off k.entryLayout).map (fieldText frame)))) =
      some ((k.entries frame).map fun off => structText frame off k.entryLayout) :=
    mapM_of_forall fun off _ => sprintf_of_lt (length_entryText frame k off)
  rw [jsonArray, hentries]
  rfl

/-- The text of a message without its array. -/
theorem length_bodyText : (braced ((fieldsAt 16 k.layout).map (fieldText frame) ++
      [k.arrayWord.text ++ arrayText frame k])).length =
    keysWidth k.layout + fieldsWidth frame 16 k.layout + (k.arrayWord.text.length + 2) +
      (arrayText frame k).length := by
  rw [length_braced (List.append_ne_nil_of_right_ne_nil _ (List.cons_ne_nil _ _)), List.map_append, List.sum_append,
    sum_fieldTexts, List.map_singleton, List.sum_singleton, List.length_append]
  omega

theorem isSome_sprintf_bind (size : Nat) (text : List Char) (f : List Char → Option (List Char)) :
    ((sprintf size text).bind f).isSome = true ↔ text.length < size ∧ (f text).isSome = true := by
  unfold sprintf
  split
  case isTrue h => exact ⟨fun hsome => ⟨h, hsome⟩, fun hsome => hsome.2⟩
  case isFalse h => exact ⟨fun hsome => (Bool.false_ne_true hsome).elim, fun hsome => absurd hsome.1 h⟩

/-- The buffers of the message without its header and of the whole text, if the other two are large enough. -/
theorem isSome_put {sizeArray sizeMsg sizePacked : Nat} (hput : k.put frame = (do
      let jsonHeader ← ospf6DbJsonHeader frame
      let jsonArray ← jsonArray sizeArray frame k.start k.entrySize k.entryLayout
      let jsonMsg ← sprintf sizeMsg
        (braced ((fieldsAt 16 k.layout).map (fieldText frame) ++ [k.arrayWord.text ++ jsonArray]))
      sprintf sizePacked (braced [Keyword.header.text ++ jsonHeader, k.word.text ++ jsonMsg])))
    (hpacked : 156 + sizeMsg ≤ sizePacked) : (k.put frame).isSome = true ↔
      (arrayText frame k).length < sizeArray ∧ keysWidth k.layout + fieldsWidth frame 16 k.layout +
        (k.arrayWord.text.length + 2) + (arrayText frame k).length < sizeMsg := by
  rw [hput, ospf6DbJsonHeader_eq, jsonArray_eq, Option.bind_eq_bind, Option.bind_some, isSome_sprintf_bind,
    isSome_sprintf_bind, isSome_sprintf, length_bodyText]
  have hheader := length_headerText frame
  have hword : Keyword.header.text.length = 8 ∧ k.word.text.length ≤ 8 := by
    cases k <;> decide
  constructor
  · rintro ⟨harray, hmsg, -⟩
    exact ⟨harray, hmsg⟩
  · rintro ⟨harray, hmsg⟩
    refine ⟨harray, hmsg, ?_⟩
    rw [length_braced (List.cons_ne_nil _ _), List.map_cons, List.map_singleton, List.sum_cons, List.sum_singleton,
      List.length_append, List.length_append, length_bodyText]
    omega

end Buffers

/-- The sum that the entries of an array add up to is its length, but for an empty one. -/
theorem length_arrayText_cases (frame : List UInt8) (k : Kind) :
    (arrayText frame k).length =
        ((k.entries frame).map fun off => keysWidth k.entryLayout + 2 + fieldsWidth frame off k.entryLayout).sum ∨
      (arrayText frame k).length = 2 ∧
        ((k.entries frame).map fun off =>
          keysWidth k.entryLayout + 2 + fieldsWidth frame off k.entryLayout).sum = 0 := by
  by_cases hne : k.entries frame = []
  · refine .inr ⟨?_, ?_⟩
    · rw [arrayText, hne]
      rfl
    · rw [hne]
      rfl
  · exact .inl (length_arrayText hne)

theorem isSome_ospf6DbPutHello (frame : List UInt8) : (ospf6DbPutHello frame).isSome = true ↔
    ((entryOffsets frame 36 4).map fun off => 15 + decimalWidth (load frame off 4)).sum < 200 := by
  have hput : (ospf6DbPutHello frame).isSome = true ↔ (arrayText frame .hello).length < 200 ∧
      keysWidth Kind.hello.layout + fieldsWidth frame 16 Kind.hello.layout + (Kind.hello.arrayWord.text.length + 2) +
        (arrayText frame .hello).length < 400 := isSome_put frame .hello rfl (by decide)
  have harray := length_arrayText_cases frame .hello
  have hentry : (fun off => keysWidth Kind.hello.entryLayout + 2 + fieldsWidth frame off Kind.hello.entryLayout) =
      fun off => 15 + decimalWidth (load frame off 4) := by
    have hkeys : keysWidth Kind.hello.entryLayout = 13 := by decide
    funext off
    rw [hkeys]
    rfl
  have hwidth := fieldsWidth_le frame 16 Kind.hello.narrow_layout
  have hkeys : keysWidth Kind.hello.layout = 125 := by decide
  have hroom : (Kind.hello.layout.map Slot.room).sum = 55 := by decide
  have hword : Kind.hello.arrayWord.text.length = 12 := by decide
  rw [hentry] at harray
  change _ ↔ ((Kind.hello.entries frame).map fun off => 15 + decimalWidth (load frame off 4)).sum < 200
  rw [hput]
  omega

theorem isSome_ospf6DbPutDbdesc (frame : List UInt8) : (ospf6DbPutDbdesc frame).isSome = true ↔
    107 + fieldsWidth frame 16 dbdescLayout +
      ((entryOffsets frame 28 20).map fun off => 69 + fieldsWidth frame off lsaHeaderLayout).sum < 800 := by
  have hput : (ospf6DbPutDbdesc frame).isSome = true ↔ (arrayText frame .dbdesc).length < 800 ∧
      keysWidth Kind.dbdesc.layout + fieldsWidth frame 16 Kind.dbdesc.layout +
        (Kind.dbdesc.arrayWord.text.length + 2) + (arrayText frame .dbdesc).length < 800 :=
    isSome_put frame .dbdesc rfl (by decide)
  have harray := length_arrayText_cases frame .dbdesc
  have hentry : keysWidth Kind.dbdesc.entryLayout + 2 = 69 := by decide
  have hwidth := fieldsWidth_le frame 16 Kind.dbdesc.narrow_layout
  have hkeys : keysWidth Kind.dbdesc.layout = 92 := by decide
  have hroom : (Kind.dbdesc.layout.map Slot.room).sum = 34 := by decide
  have hword : Kind.dbdesc.arrayWord.text.length = 13 := by decide
  rw [hentry] at harray
  change _ ↔ 107 + fieldsWidth frame 16 Kind.dbdesc.layout +
    ((Kind.dbdesc.entries frame).map fun off => 69 + fieldsWidth frame off Kind.dbdesc.entryLayout).sum < 800
  rw [hput]
  omega

/-- The texts of a Hello and of a Database Description fit with their ends if and only if the list is short enough:
that of the neighbors for its own buffer, that of the LSA headers for the buffer of the message it is put into. -/
theorem checkpointText_fits_iff (frame : List UInt8) :
    ((ospf6DbPutHello frame).isSome = true ↔
      ((entryOffsets frame 36 4).map fun off => 15 + decimalWidth (load frame off 4)).sum < 200) ∧
    ((ospf6DbPutDbdesc frame).isSome = true ↔
      107 + fieldsWidth frame 16 dbdescLayout +
        ((entryOffsets frame 28 20).map fun off => 69 + fieldsWidth frame off lsaHeaderLayout).sum < 800) :=
  ⟨isSome_ospf6DbPutHello frame, isSome_ospf6DbPutDbdesc frame⟩

/-- A Hello that has heard of eight neighbors, from 10.0.0.101 to 10.0.0.108. -/
def helloOfEight : List UInt8 :=
  [3, 1, 0, 68, 1, 1, 1, 1, 0, 0, 0, 0, 0, 0, 0, 0] ++
    [0, 0, 0, 5, 1, 0, 0, 19, 0, 10, 0, 40, 0, 0, 0, 0, 0, 0, 0, 0] ++
    (List.range 8).flatMap fun i => [10, 0, 0, UInt8.ofNat (i + 101)]

/-- Its list is longer than the buffer. -/
theorem helloOfEight_not_fits :
    helloOfEight.length = 68 ∧ ospf6Length helloOfEight = 68 ∧ (ospf6DbPutHello helloOfEight).isSome = false := by
  set_option maxRecDepth 8000 in decide

end Harry.Checkpoint
