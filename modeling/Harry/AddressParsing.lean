import Harry.PortTransfer

/-! What `router_process_addresses` does with a message of any content. It ends, and stays inside the message, for the
messages that are made of whole records of the two families for ports that the router knows, and for no others: an
empty one is read behind its end, a record of another type is looked at forever, and a truncated one is read to where
its end would be. -/

namespace Harry.Transfer

open Harry.Base Harry.Rfp
open Harry.Controller (AddressFamily Connected Interface)

/-- A whole record of a family, for an interface of the router. -/
structure IsRecord (rt : Ports) (r : List UInt8) (family : AddressFamily) : Prop where
  type : numberIn r 2 2 = some (familyCode family)
  length : r.length = 8 + addrSize family
  known : ∃ ifindex, numberIn r 0 2 = some ifindex ∧ UInt32.ofNat ifindex ∈ rt.iflist.map (·.ifindex)

theorem bytesAt_append {r : List UInt8} (rest : List UInt8) {off n : Nat} (h : off + n ≤ r.length) :
    bytesAt (r ++ rest) off n = bytesAt r off n := by
  have hlen : off + n ≤ (r ++ rest).length := by
    rw [List.length_append]
    omega
  have hoff : off ≤ r.length := by omega
  have hn : n ≤ (r.drop off).length := by
    rw [List.length_drop]
    omega
  rw [bytesAt, bytesAt, if_pos h, if_pos hlen, List.drop_append_of_le_length hoff, List.take_append_of_le_length hn]

theorem numberIn_append {r : List UInt8} (rest : List UInt8) {off n : Nat} (h : off + n ≤ r.length) :
    numberIn (r ++ rest) off n = numberIn r off n := by
  rw [numberIn, bytesAt_append rest h, numberIn]

theorem bytesAt_isSome_iff {data : List UInt8} {off n : Nat} :
    (bytesAt data off n).isSome = true ↔ off + n ≤ data.length := by
  unfold bytesAt
  split
  case isTrue h => exact ⟨fun _ => h, fun _ => rfl⟩
  case isFalse h => exact ⟨fun hsome => (Bool.false_ne_true hsome).elim, fun hle => absurd hle h⟩

theorem familyOf_eq_some_iff {type : Nat} {family : AddressFamily} :
    familyOf type = some family ↔ type = familyCode family := by
  unfold familyOf
  constructor
  · intro h
    split at h
    · cases h
      assumption
    · split at h
      · cases h
        assumption
      · cases h
  · rintro rfl
    cases family <;> rfl

theorem mem_of_ifLookupByIndex {iflist : List Interface} {x : UInt32} {i : Nat} (h : ifLookupByIndex iflist x = some i) :
    x ∈ iflist.map (·.ifindex) := by
  obtain ⟨hi, hx, -⟩ := List.findIdx?_eq_some_iff_getElem.mp h
  exact List.mem_map.mpr ⟨iflist[i], List.getElem_mem hi, of_decide_eq_true hx⟩

section Pass

variable {rt rt' : Ports} {family : AddressFamily}

/-- An address leaves the numbers of the interfaces as they are. -/
theorem ifindex_addConnected {data : List UInt8} (h : addConnected data family rt = some rt') :
    rt'.iflist.map (·.ifindex) = rt.iflist.map (·.ifindex) := by
  simp only [addConnected, Option.bind_eq_bind, Option.bind_eq_some_iff] at h
  obtain ⟨addr, -, prefixlen, -, ifindex, -, i, -, h⟩ := h
  cases h
  apply List.ext_getElem?
  intro k
  rw [List.getElem?_map, List.getElem?_map, List.getElem?_modify]
  cases rt.iflist[k]? with
  | none => rfl
  | some ifp => by_cases hik : i = k <;> simp [hik]

theorem IsRecord.congr {r : List UInt8} (hsame : rt'.iflist.map (·.ifindex) = rt.iflist.map (·.ifindex))
    (h : IsRecord rt r family) : IsRecord rt' r family :=
  ⟨h.type, h.length, hsame ▸ h.known⟩

/-- The address of a record is added if and only if the record is whole and its port is known. -/
theorem addConnected_isSome_iff {data : List UInt8} : (∃ rt', addConnected data family rt = some rt') ↔
    8 + addrSize family ≤ data.length ∧
      ∃ ifindex, numberIn data 0 2 = some ifindex ∧ UInt32.ofNat ifindex ∈ rt.iflist.map (·.ifindex) := by
  constructor
  · rintro ⟨rt', h⟩
    simp only [addConnected, Option.bind_eq_bind, Option.bind_eq_some_iff] at h
    obtain ⟨addr, haddr, prefixlen, -, ifindex, hifindex, i, hi, -⟩ := h
    exact ⟨bytesAt_isSome_iff.mp (Option.isSome_of_mem haddr), ifindex, hifindex, mem_of_ifLookupByIndex hi⟩
  · rintro ⟨hlen, ifindex, hifindex, hknown⟩
    obtain ⟨addr, haddr⟩ := Option.isSome_iff_exists.mp (bytesAt_isSome_iff.mpr hlen)
    have hsome : (numberIn data 4 2).isSome = true := by
      rw [numberIn, Option.isSome_map, bytesAt_isSome_iff]
      omega
    obtain ⟨prefixlen, hprefixlen⟩ := Option.isSome_iff_exists.mp hsome
    obtain ⟨i, hi⟩ := ifLookupByIndex_of_mem hknown
    simp only [addConnected, haddr, hprefixlen, hifindex, hi, Option.bind_eq_bind, Option.bind_some]
    exact ⟨_, rfl⟩

/-- A pass that comes to its end has read a record that begins the bytes. -/
theorem processConnected_cases {data : List UInt8} {left : Nat} (h : (processConnected data left rt).isSome = true) :
    ∃ family rt', IsRecord rt (data.take (8 + addrSize family)) family ∧ 8 + addrSize family ≤ data.length ∧
      rt'.iflist.map (·.ifindex) = rt.iflist.map (·.ifindex) ∧ (8 + addrSize family < left →
        (processConnected (data.drop (8 + addrSize family)) (left - (8 + addrSize family)) rt').isSome = true) := by
  obtain ⟨out, hout⟩ := Option.isSome_iff_exists.mp h
  rw [processConnected] at hout
  simp only [Option.bind_eq_bind, Option.bind_eq_some_iff] at hout
  obtain ⟨type, htype, family, hfamily, rt', hadd, hrest⟩ := hout
  obtain ⟨hlen, ifindex, hifindex, hknown⟩ := addConnected_isSome_iff.mp ⟨rt', hadd⟩
  have htake : (data.take (8 + addrSize family)).length = 8 + addrSize family := List.length_take_of_le hlen
  have hfield (off n : Nat) (hoff : off + n ≤ 8 + addrSize family) :
      numberIn (data.take (8 + addrSize family)) off n = numberIn data off n := by
    have hin : off + n ≤ (data.take (8 + addrSize family)).length := by
      rw [htake]
      exact hoff
    rw [← numberIn_append (data.drop (8 + addrSize family)) hin, List.take_append_drop]
  refine ⟨family, rt', ⟨?_, htake, ifindex, ?_, hknown⟩, hlen, ifindex_addConnected hadd, fun hlt => ?_⟩
  · rw [hfield 2 2 (by omega), htype, familyOf_eq_some_iff.mp hfamily]
  · rw [hfield 0 2 (by omega), hifindex]
  · rw [dif_pos hlt] at hrest
    exact Option.isSome_of_mem hrest

/-- A pass over a record. -/
theorem processConnected_record {r : List UInt8} (h : IsRecord rt r family) (rest : List UInt8) (left : Nat) :
    ∃ rt', rt'.iflist.map (·.ifindex) = rt.iflist.map (·.ifindex) ∧ processConnected (r ++ rest) left rt =
      if 8 + addrSize family < left then processConnected rest (left - (8 + addrSize family)) rt' else some rt' := by
  have hlen : 8 + addrSize family ≤ (r ++ rest).length := by
    rw [List.length_append, h.length]
    exact Nat.le_add_right _ _
  have htype : numberIn (r ++ rest) 2 2 = some (familyCode family) := by
    rw [numberIn_append rest (by rw [h.length]; omega), h.type]
  have hfamily : familyOf (familyCode family) = some family := familyOf_eq_some_iff.mpr rfl
  obtain ⟨ifindex, hifindex, hknown⟩ := h.known
  have hifindex' : numberIn (r ++ rest) 0 2 = some ifindex := by
    rw [numberIn_append rest (by rw [h.length]; omega), hifindex]
  obtain ⟨rt', hadd⟩ := addConnected_isSome_iff.mpr ⟨hlen, ifindex, hifindex', hknown⟩
  refine ⟨rt', ifindex_addConnected hadd, ?_⟩
  rw [processConnected]
  simp only [htype, hfamily, hadd, Option.bind_eq_bind, Option.bind_some, List.drop_left' h.length]
  rfl

end Pass

/-! ### The message -/

theorem processConnected_of_records {rs : List (List UInt8)} (hne : rs ≠ []) {rt : Ports}
    (hrs : ∀ r ∈ rs, ∃ family, IsRecord rt r family) :
    (processConnected rs.flatten rs.flatten.length rt).isSome = true := by
  induction rs generalizing rt with
  | nil => exact absurd rfl hne
  | cons r rs ih =>
      obtain ⟨family, hr⟩ := hrs r List.mem_cons_self
      obtain ⟨rt', hsame, hpass⟩ := processConnected_record hr rs.flatten (r :: rs).flatten.length
      rw [List.flatten_cons] at hpass ⊢
      rw [hpass]
      split
      case isFalse => rfl
      case isTrue hmore =>
        rw [List.length_append, hr.length] at hmore ⊢
        rw [Nat.add_sub_cancel_left]
        refine ih (fun hnil => ?_) fun r' hr' => ?_
        · rw [hnil] at hmore
          exact Nat.lt_irrefl _ hmore
        · obtain ⟨family', h'⟩ := hrs r' (List.mem_cons_of_mem r hr')
          exact ⟨family', h'.congr hsame⟩

theorem records_of_processConnected {rt : Ports} {data : List UInt8}
    (h : (processConnected data data.length rt).isSome = true) :
    ∃ rs, rs ≠ [] ∧ data = rs.flatten ∧ ∀ r ∈ rs, ∃ family, IsRecord rt r family := by
  obtain ⟨n, hn⟩ : ∃ n, n = data.length := ⟨_, rfl⟩
  induction n using Nat.strongRecOn generalizing data rt with
  | ind n ih =>
      obtain ⟨family, rt', hrecord, hlen, hsame, hrest⟩ := processConnected_cases h
      by_cases hmore : 8 + addrSize family < data.length
      · have hdrop : data.length - (8 + addrSize family) = (data.drop (8 + addrSize family)).length := by
          rw [List.length_drop]
        have hless : (data.drop (8 + addrSize family)).length < n := by
          rw [List.length_drop, hn]
          omega
        obtain ⟨rs, -, hdata, hrs⟩ := ih _ hless (hdrop ▸ hrest hmore) rfl
        refine ⟨data.take (8 + addrSize family) :: rs, List.cons_ne_nil _ _, ?_, ?_⟩
        · rw [List.flatten_cons, ← hdata, List.take_append_drop]
        · rw [List.forall_mem_cons]
          refine ⟨⟨family, hrecord⟩, fun r hr => ?_⟩
          obtain ⟨family', h'⟩ := hrs r hr
          exact ⟨family', h'.congr hsame.symm⟩
      · have hall : data.take (8 + addrSize family) = data := List.take_of_length_le (Nat.le_of_not_lt hmore)
        rw [hall] at hrecord
        exact ⟨[data], List.cons_ne_nil _ _, List.flatten_singleton.symm, fun r hr => ⟨family, by
          rwa [List.mem_singleton.mp hr]⟩⟩

/-- An address reply of any content is parsed to its end, inside of it, if and only if it is made of whole records, of
which there is at least one, each for a port of the router. -/
theorem routerProcessAddresses_iff (rt : Ports) {msg : List UInt8} (hmsg : headerLength msg = msg.length) :
    (routerProcessAddresses rt msg).isSome = true ↔
      ∃ rs, rs ≠ [] ∧ msg.drop 8 = rs.flatten ∧ ∀ r ∈ rs, ∃ family, IsRecord rt r family := by
  have hleft : headerLength msg - 8 = (msg.drop 8).length := by
    rw [hmsg, List.length_drop]
  rw [routerProcessAddresses, hleft]
  constructor
  · exact records_of_processConnected
  · rintro ⟨rs, hne, hdata, hrs⟩
    rw [hdata]
    exact processConnected_of_records hne hrs

/-- An address reply with the record of 10.0.0.1/24, for port 2. -/
def addressesOfOne : List UInt8 := [1, 8, 0, 20, 0, 0, 0, 7] ++ [2, 0, 2, 0, 24, 0, 0, 0, 10, 0, 0, 1]

/-- A router with that port. -/
def routerOfOne : Ports := ⟨[⟨2, [101, 116, 104, 48], 512, 1500, []⟩], [0]⟩

theorem routerProcessAddresses_one : (routerProcessAddresses routerOfOne addressesOfOne).isSome = true :=
  (routerProcessAddresses_iff routerOfOne (by decide)).mpr
    ⟨[[2, 0, 2, 0, 24, 0, 0, 0, 10, 0, 0, 1]], List.cons_ne_nil _ _, rfl, fun r hr =>
      ⟨.inet, by
        obtain rfl := List.mem_singleton.mp hr
        exact ⟨rfl, rfl, 2, rfl, by decide⟩⟩⟩

/-- A reply without an address, and one with a record of another family. -/
theorem routerProcessAddresses_none :
    headerLength [1, 8, 0, 8, 0, 0, 0, 7] = 8 ∧
      routerProcessAddresses routerOfOne [1, 8, 0, 8, 0, 0, 0, 7] = none ∧
      routerProcessAddresses routerOfOne ([1, 8, 0, 20, 0, 0, 0, 7] ++ [2, 0, 3, 0, 24, 0, 0, 0, 10, 0, 0, 1]) =
        none := by
  refine ⟨rfl, ?_, ?_⟩ <;> rw [routerProcessAddresses, processConnected] <;> rfl

end Harry.Transfer
