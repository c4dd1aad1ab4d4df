import Mathlib.Logic.Function.Iterate
import Harry.CheckpointText
import Harry.SiblingMessage

/-! How a sibling stores a Hello and a Database Description, and how it reads them back. `ospf6_db_put_hello` and
`ospf6_db_put_dbdesc` print the fields of a message as they lie in memory; the grammar of `json_parser.y` assigns the
numbers to the fields again, once for the header and once for the body. The neighbors of a Hello and the LSA headers
of a Database Description are stored through indices that live outside of the grammar. -/

namespace Harry.Checkpoint

open Harry.Sibling

/-- A field of a structure: its word and the number of its bytes. -/
structure Slot where
  key : Keyword
  width : Nat

/-- `struct ospf6_header`. -/
def headerLayout : List Slot :=
  [⟨.version, 1⟩, ⟨.type, 1⟩, ⟨.length, 2⟩, ⟨.routerId, 4⟩, ⟨.areaId, 4⟩, ⟨.checksum, 2⟩, ⟨.instanceId, 1⟩,
    ⟨.reserved, 1⟩]

/-- `struct ospf6_hello`. -/
def helloLayout : List Slot :=
  [⟨.interfaceId, 4⟩, ⟨.priority, 1⟩, ⟨.options0, 1⟩, ⟨.options1, 1⟩, ⟨.options2, 1⟩, ⟨.helloInterval, 2⟩,
    ⟨.deadInterval, 2⟩, ⟨.drouter, 4⟩, ⟨.bdrouter, 4⟩]

/-- `struct ospf6_dbdesc`. -/
def dbdescLayout : List Slot :=
  [⟨.reserved1, 1⟩, ⟨.options0, 1⟩, ⟨.options1, 1⟩, ⟨.options2, 1⟩, ⟨.ifmtu, 2⟩, ⟨.reserved2, 1⟩, ⟨.bits, 1⟩,
    ⟨.seqnum, 4⟩]

/-- A router id after a Hello. -/
def adjacencyLayout : List Slot := [⟨.routerId, 4⟩]

/-- `struct ospf6_lsa_header`. -/
def lsaHeaderLayout : List Slot :=
  [⟨.age, 2⟩, ⟨.type, 2⟩, ⟨.id, 4⟩, ⟨.advRouter, 4⟩, ⟨.seqnum, 4⟩, ⟨.checksum, 2⟩, ⟨.length, 2⟩]

/-- A field at a place in a message. -/
structure Field where
  key : Keyword
  off : Nat
  width : Nat

/-- The fields of a structure that begins at an offset. -/
def fieldsAt : Nat → List Slot → List Field
  | _, [] => []
  | off, f :: fs => ⟨f.key, off, f.width⟩ :: fieldsAt (off + f.width) fs

/-- The unsigned number in the bytes at an offset, the first byte being the lowest. -/
def load (bs : List UInt8) (off : Nat) : Nat → Nat
  | 0 => 0
  | w + 1 => (u8At bs off).toNat + 2 ^ 8 * load bs (off + 1) w

/-- The bytes in which the low bits of a number are kept. -/
def leBytes : Nat → Nat → List UInt8
  | 0, _ => []
  | w + 1, v => UInt8.ofNat v :: leBytes w (v / 2 ^ 8)

/-- Texts with a comma and a space between them. -/
def joined : List (List Char) → List Char
  | [] => []
  | [x] => x
  | x :: xs => x ++ ',' :: ' ' :: joined xs

/-- A word and the number it goes with. -/
def fieldText (frame : List UInt8) (f : Field) : List Char := f.key.text ++ formatD (load frame f.off f.width)

/-- Texts in braces. -/
def braced (xs : List (List Char)) : List Char := '{' :: (joined xs ++ ['}'])

/-- `sprintf` into a buffer; a text that does not fit with its end is written beyond it. -/
def sprintf (size : Nat) (text : List Char) : Option (List Char) := if text.length < size then some text else none

/-- `DATA_SIZE`. -/
def dataSize : Nat := 200

/-- `ospf6_db_json_header`. -/
def ospf6DbJsonHeader (frame : List UInt8) : Option (List Char) :=
  sprintf dataSize (braced ((fieldsAt 0 headerLayout).map (fieldText frame)))

/-- The entries of a size that follow a structure up to the end of the message, each a text of its own, in a buffer of
`size` bytes. -/
def jsonArray (size : Nat) (frame : List UInt8) (start width : Nat) (layout : List Slot) : Option (List Char) := do
  let entries ← (entryOffsets frame start width).mapM fun off =>
    sprintf dataSize (braced ((fieldsAt off layout).map (fieldText frame)))
  sprintf size ('[' :: (joined entries ++ [']']))

/-- The text `ospf6_db_put_hello` stores. -/
def ospf6DbPutHello (frame : List UInt8) : Option (List Char) := do
  let jsonHeader ← ospf6DbJsonHeader frame
  let jsonRouterIds ← jsonArray dataSize frame 36 4 adjacencyLayout
  let jsonMsg ← sprintf (dataSize * 2)
    (braced ((fieldsAt 16 helloLayout).map (fieldText frame) ++ [Keyword.routerIds.text ++ jsonRouterIds]))
  sprintf (dataSize * 3) (braced [Keyword.header.text ++ jsonHeader, Keyword.hello.text ++ jsonMsg])

/-- The text `ospf6_db_put_dbdesc` stores. -/
def ospf6DbPutDbdesc (frame : List UInt8) : Option (List Char) := do
  let jsonHeader ← ospf6DbJsonHeader frame
  let jsonLsaHeaders ← jsonArray (dataSize * 4) frame 28 20 lsaHeaderLayout
  let jsonMsg ← sprintf (dataSize * 4)
    (braced ((fieldsAt 16 dbdescLayout).map (fieldText frame) ++ [Keyword.lsaHeaders.text ++ jsonLsaHeaders]))
  sprintf (dataSize * 5) (braced [Keyword.header.text ++ jsonHeader, Keyword.dbdesc.text ++ jsonMsg])

/-! ### Reading back -/

/-- `*field = $2`. -/
structure Store where
  off : Nat
  width : Nat
  bits : Nat
  deriving DecidableEq, Repr

/-- `router_id_index` and `lsa_header_index`, which keep their values between calls of the parser. -/
structure Indices where
  routerId : Nat
  lsaHeader : Nat
  deriving DecidableEq, Repr

/-- The indices of a process that has not parsed anything. -/
def Indices.initial : Indices := ⟨0, 0⟩

/-- The state of `yyparse`: what is still to be read, what the actions have done, and whether there was an error, after
which it returns. -/
structure Parser where
  tokens : List Token
  indices : Indices
  stores : List Store
  failed : Bool

namespace Parser

variable (getHeader : Bool) (p : Parser)

def fail : Parser := { p with failed := true }

/-- A token that has to come next. -/
def eat (t : Token) : Parser :=
  if p.failed then p
  else match p.tokens with
    | t' :: ts => if t' = t then { p with tokens := ts } else p.fail
    | [] => p.fail

/-- A comma that may come next. -/
def eatComma : Parser :=
  if p.failed then p
  else match p.tokens with
    | .comma :: ts => { p with tokens := ts }
    | _ => p

/-- An action that assigns to a field. -/
def assign (active : Bool) (off width bits : Nat) : Parser :=
  if active then { p with stores := p.stores ++ [⟨off, width, bits⟩] } else p

/-- `T_WORD T_NUMBER T_COMMA` or `T_WORD T_NUMBER`, for the words of a structure that begins at `base`. -/
def expression (active : Bool) (base : Nat) (layout : List Slot) : Parser :=
  if p.failed then p
  else match p.tokens with
    | .keyword k :: .number n :: ts =>
        match (fieldsAt base layout).find? fun f => f.key = k with
        | some f => (({ p with tokens := ts } : Parser).assign active f.off f.width n).eatComma
        | none => p.fail
    | _ => p.fail

/-- `header_expression`. -/
def headerExpression : Parser := expression p getHeader 0 headerLayout

/-- `header`: eight times `header_expression`. -/
def header : Parser := (headerExpression getHeader)^[8] p

/-- `hello_expression`. The dead interval is the one word with no rule that ends without a comma. -/
def helloExpression : Parser :=
  match p.tokens with
  | .keyword .deadInterval :: .number _ :: .comma :: _ => expression p (!getHeader) 16 helloLayout
  | .keyword .deadInterval :: _ => p.fail
  | _ => expression p (!getHeader) 16 helloLayout

/-- `dbdesc_expression`. -/
def dbdescExpression : Parser := expression p (!getHeader) 16 dbdescLayout

/-- `adjacency`. -/
def adjacency : Parser :=
  if p.failed then p
  else match p.tokens with
    | .keyword .routerId :: .number n :: ts =>
        let p := { p with tokens := ts }
        if getHeader then p
        else { assign p true (36 + 4 * p.indices.routerId) 4 n with
          indices := { p.indices with routerId := p.indices.routerId + 1 } }
    | _ => p.fail

/-- `lsa_expression`. -/
def lsaExpression : Parser := expression p (!getHeader) (28 + 20 * p.indices.lsaHeader) lsaHeaderLayout

/-- The action of `lsa_header`. -/
def lsaHeaderParsed : Parser :=
  if p.failed || getHeader then p
  else { p with indices := { p.indices with lsaHeader := p.indices.lsaHeader + 1 } }

/-- `lsa_header`: seven times `lsa_expression`. -/
def lsaHeader : Parser := lsaHeaderParsed getHeader ((lsaExpression getHeader)^[7] p)

/-- `adjacency_body` and `lsa_header_body`. -/
def element (entry : Parser → Parser) : Parser := ((entry (p.eat .openBrace)).eat .closeBrace).eatComma

/-- `adjacencies` and `lsa_headers`, from the second element on. -/
def elements (entry : Parser → Parser) : Nat → Parser → Parser
  | 0, p => p
  | fuel + 1, p =>
      match p.tokens with
      | .openBrace :: _ => if p.failed then p else elements entry fuel (p.element entry)
      | _ => p

/-- `array_body`: the first word tells the two kinds of elements apart. -/
def arrayBody : Parser :=
  let p := p.eat .openBracket
  if p.failed then p
  else match p.tokens with
    | .closeBracket :: _ => p.eat .closeBracket
    | .openBrace :: .keyword .routerId :: _ =>
        (elements (adjacency getHeader) p.tokens.length (p.element (adjacency getHeader))).eat .closeBracket
    | _ => (elements (lsaHeader getHeader) p.tokens.length (p.element (lsaHeader getHeader))).eat .closeBracket

/-- `hello`: nine times `hello_expression` and `adjacencies_array`. -/
def hello : Parser := (((helloExpression getHeader)^[9] p).eat (.keyword .routerIds)).arrayBody getHeader

/-- `dbdesc`: eight times `dbdesc_expression` and `lsa_headers_array`. -/
def dbdesc : Parser := (((dbdescExpression getHeader)^[8] p).eat (.keyword .lsaHeaders)).arrayBody getHeader

/-- What comes in a `body` after `T_HEADER statement`. -/
def message : Parser :=
  if p.failed then p
  else match p.tokens with
    | .comma :: .keyword .hello :: ts =>
        ((({ p with tokens := ts } : Parser).eat .openBrace).hello getHeader).eat .closeBrace
    | .comma :: .keyword .dbdesc :: ts =>
        ((({ p with tokens := ts } : Parser).eat .openBrace).dbdesc getHeader).eat .closeBrace
    | .comma :: _ => p.fail
    | _ => p

/-- `statement` and the `body` in it. -/
def statement : Nat → Parser → Parser
  | 0, p => p.fail
  | fuel + 1, p =>
      let p := p.eat .openBrace
      match p.tokens with
      | .keyword .header :: _ => ((statement fuel (p.eat (.keyword .header))).message getHeader).eat .closeBrace
      | _ => (p.header getHeader).eat .closeBrace

/-- `line`: statements up to the end of the text. -/
def line : Nat → Parser → Parser
  | 0, p => p
  | fuel + 1, p =>
      if p.failed ∨ p.tokens = [] then p else line fuel (p.statement getHeader p.tokens.length)

end Parser

/-- `yyparse` on a text. -/
def yyparse (getHeader : Bool) (text : List Char) (indices : Indices) : Parser :=
  (⟨scan text, indices, [], false⟩ : Parser).line getHeader (scan text).length

/-- `json_parse_header` and `json_parse_body`: what they assign in the message, and the indices after them. -/
def jsonParse (text : List Char) (indices : Indices) : List Store × Indices :=
  let header := yyparse true text indices
  let body := yyparse false text header.indices
  (header.stores ++ body.stores, body.indices)

/-- An assignment to the memory that begins with the message. -/
def Store.apply (mem : Nat → UInt8) (s : Store) : Nat → UInt8 := fun i =>
  if s.off ≤ i ∧ i < s.off + s.width then (leBytes s.width s.bits).getD (i - s.off) 0 else mem i

/-- The message of a size in the memory after the assignments. -/
def applied (stores : List Store) (mem : Nat → UInt8) (size : Nat) : List UInt8 :=
  (List.range size).map (stores.foldl Store.apply mem)

end Harry.Checkpoint
