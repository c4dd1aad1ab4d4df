import Harry.SiblingReplica
import Harry.SiblingRouting

/-! The egress messages of two siblings, with their routing calculations: the Hellos, DbDescs, LSReqs, LSUpdates and
LSAcks, and the route set requests that go to the controllers between them. -/

namespace Harry.Sibling

open Harry.Base Harry.Rfp Calculation

/-- Two siblings that start in the same protocol state, take the same messages and fire the same timers send the
same bytes, in every run no step of which depends on their clocks or on where their buffers are; and they stay in the
same state, routing tables included. -/
theorem same_egress {x x' : Replica Routing} (h : SameState x x') (ts : List Turn)
    (hfree : sibling.Together Turn.left Turn.right StepOblivious x x' ts) :
    (sibling.run x' (ts.map Turn.right)).outs = (sibling.run x (ts.map Turn.left)).outs ∧
      Option.Rel SameState (sibling.run x (ts.map Turn.left)).result (sibling.run x' (ts.map Turn.right)).result :=
  same_egress_of_oblivious h ts hfree

/-- A task that looks at the seconds, at the place of its buffer and at which LSAs are of `MaxAge`, where they are the
same. -/
theorem agree_of_tests {m m' : Mem} (P : Prop) (Q : (Nat → Int) → (Nat → Int) → Prop) (T : LsaKey → Prop)
    (hseconds : P → ∀ n n', (m.clock n).sec32 = (m'.clock n').sec32) (hmoves : Q m.moves m'.moves)
    (htests : ∀ a k, m.key a = some k → T k →
      ∀ n n', (m.lsa a).ageAt (m.clock n) = maxage ↔ (m'.lsa a).ageAt (m'.clock n') = maxage) :
    Agree { Concern.nothing m.clock m'.clock with tests := T, seqnum := P, moves := Q } m m' where
  moves := hmoves
  clocks :=
    { shown := fun _ i j hij => ⟨i, j, hij, rfl⟩
      shown' := fun _ i j hij => ⟨i, j, hij, rfl⟩
      tests := fun _ _ hg => hg.elim
      compares := fun _ _ _ hg => hg.elim
      created := fun _ hk => hk.elim
      arrives := fun _ hk => hk.elim
      seqnum := hseconds }
  lsas a k hkey := ⟨htests a k hkey, fun hk => hk.elim, fun _ hg => hg.elim, fun hk => hk.elim⟩

section Runs

/-- The controller of these siblings; there is no other one that could want its address. -/
def oneController : Routing := .create [⟨1, none⟩] (by decide)

/-- A sibling that knows no router yet. -/
def listening : Replica Routing := ⟨{ withInterface default with routes := oneController }, []⟩

/-- A Hello that lists the sibling, and the two events it leads to: the election and the first DbDesc. -/
def helloTurns : List Turn :=
  [.still (.recv 0 77 twowayHello) ⟨5, 0⟩ ⟨6, 0⟩, .still .event ⟨5, 0⟩ ⟨6, 0⟩, .still .event ⟨5, 0⟩ ⟨6, 0⟩]

/-- One second between the clocks is in the first DbDesc that answers a Hello. -/
theorem egress_differs_by_a_second :
    (sibling.run listening (helloTurns.map Turn.right)).outs ≠
      (sibling.run listening (helloTurns.map Turn.left)).outs := by
  decide

/-- A Router-LSA of a router, with a point-to-point link of cost 10 to another one. -/
def linkTo (routerId : UInt32) (nbr : UInt8) : LsaInfo :=
  { (default : LsaInfo) with
    header := ⟨lstypeRouter, 0, routerId, 1, 0, 40⟩
    body := [0, 0, 0, 0, 1, 0, 0, 10, 0, 0, 0, 1, 0, 0, 0, 1, 0, 0, 0, nbr]
    lsdb := some (.area 0), hostnum := 1 }

/-- The Intra-Area-Prefix-LSA of router 2, with the prefix `2001::/16`. -/
def prefixOfTwo : LsaInfo :=
  { (default : LsaInfo) with
    header := ⟨lstypeIntraPrefix, 1, 2, 1, 0, 40⟩
    body := [0, 1, 0x20, 1, 0, 0, 0, 0, 0, 0, 0, 2, 16, 0, 0, 0, 0x20, 1, 0, 0]
    lsdb := some (.area 0), hostnum := 1 }

/-- The Link-LSA of router 2, whose address is `fe80::2`. -/
def linkOfTwo : LsaInfo :=
  { (default : LsaInfo) with
    header := ⟨lstypeLink, 1, 2, 1, 0, 44⟩
    body := [1, 0, 0, 0x13, 0xfe, 0x80] ++ List.replicate 13 0 ++ [2, 0, 0, 0, 0]
    lsdb := some (.interface 0), hostnum := 1 }

/-- A sibling in ExStart with router 2, whose LSAs are of an age. It has a calculation, a Hello and its first DbDesc
before it. -/
def calculating (age : UInt16) : Replica Routing where
  state := { withInterface { (default : Interface) with
      neighborList := [{ Neighbor.create 2 with state := .exstart, dbdescBits := 7 }], lsdb := [3] } with
    routes := oneController
    areaList := [{ (default : Area) with enabled := true, options := [0, 0, 0x13], ifList := [0], lsdb := [0, 1, 2] }]
    events := [.spfCalculation 0 1, .dbdescSend ⟨0, 2⟩], timers := [.helloSend 0] }
  heap := [linkTo 1 2, linkTo 2 1, prefixOfTwo, linkOfTwo].map fun l => { (default : Lsa) with toLsaInfo := l, age }

theorem sameState_calculating (age age' : UInt16) : SameState (calculating age) (calculating age') := by
  refine ⟨rfl, fun _ _ _ _ => ⟨rfl, fun a => ?_⟩⟩
  rcases a with _ | _ | _ | _ | a <;> rfl

/-- The calculation and a Hello at quite different times, and a DbDesc within one second. -/
def calculatingTurns : List Turn :=
  [.still .event ⟨5, 0⟩ ⟨600, 3⟩, .still (.timer (.helloSend 0)) ⟨5, 9⟩ ⟨700, 0⟩, .still .event ⟨6, 0⟩ ⟨6, 999⟩]

theorem calculating_oblivious :
    sibling.Together Turn.left Turn.right StepOblivious (calculating 1) (calculating 7) calculatingTurns := by
  refine ⟨?_, fun s hs t ht => ⟨?_, fun s₁ hs₁ t₁ ht₁ => ⟨?_, fun _ _ _ _ => trivial⟩⟩⟩
  · -- The LSAs are young for both.
    have hyoung : ∀ a < 4, (((calculating 1).mem (fun _ => ⟨5, 0⟩) fun _ => 0).lsa a).ageAt ⟨5, 0⟩ ≠ maxage ∧
        (((calculating 7).mem (fun _ => ⟨600, 3⟩) fun _ => 0).lsa a).ageAt ⟨600, 3⟩ ≠ maxage := by
      decide
    refine agree_of_tests False (fun _ _ => True) (·.type = lstypeIntraPrefix) nofun trivial fun a k hkey _ n n' => ?_
    have ha : a < 4 := by
      by_contra hle
      exact Option.some_ne_none k (hkey.symm.trans (if_neg hle))
    exact iff_of_false (hyoung a ha).1 (hyoung a ha).2
  · have htask : ((sibling.step (calculating 1) (Turn.still .event ⟨5, 0⟩ ⟨600, 3⟩).left).result.map fun s =>
        (s.enter (Turn.still (.timer (.helloSend 0)) ⟨5, 9⟩ ⟨700, 0⟩).left).1) = some (.thread (.helloSend 0)) := by
      decide +kernel
    rw [Option.mem_def.mp hs] at htask
    have hhello : (s.enter (Turn.still (.timer (.helloSend 0)) ⟨5, 9⟩ ⟨700, 0⟩).left).1 = .thread (.helloSend 0) :=
      Option.some.inj htask
    unfold StepOblivious
    rw [hhello]
    exact agree_of_tests False _ (fun _ => False) nofun trivial nofun
  · have htask : ((sibling.run (calculating 1) ((calculatingTurns.take 2).map Turn.left)).result.map fun s =>
        (s.enter (Turn.still .event ⟨6, 0⟩ ⟨6, 999⟩).left).1) = some (.thread (.dbdescSend ⟨0, 2⟩)) := by
      decide +kernel
    have hrun : (sibling.run (calculating 1) ((calculatingTurns.take 2).map Turn.left)).result = some s₁ := by
      show (sibling.run (calculating 1) [_, _]).result = _
      rw [Machine.run_cons, Exec.result_bind, Option.mem_def.mp hs, Option.bind_some, Machine.run_cons, Exec.result_bind,
        Option.mem_def.mp hs₁]
      rfl
    rw [hrun] at htask
    have hdbdesc : (s₁.enter (Turn.still .event ⟨6, 0⟩ ⟨6, 999⟩).left).1 = .thread (.dbdescSend ⟨0, 2⟩) :=
      Option.some.inj htask
    unfold StepOblivious
    rw [hdbdesc]
    exact agree_of_tests _ _ (fun _ => False) (fun _ _ _ => rfl) (fun _ => .refl _ _ _) nofun

theorem same_egress_of_calculating :
    SameState (calculating 1) (calculating 7) ∧
      sibling.Together Turn.left Turn.right StepOblivious (calculating 1) (calculating 7) calculatingTurns ∧
      (sibling.run (calculating 1) (calculatingTurns.map Turn.left)).outs.map (·.msg.type) =
        [some .ipv6RouteSetRequest, some .forwardOspf6, some .forwardOspf6] ∧
      (sibling.run (calculating 7) (calculatingTurns.map Turn.right)).outs =
        (sibling.run (calculating 1) (calculatingTurns.map Turn.left)).outs :=
  ⟨sameState_calculating 1 7, calculating_oblivious, by decide +kernel,
    (same_egress (sameState_calculating 1 7) _ calculating_oblivious).1⟩

end Runs

end Harry.Sibling
