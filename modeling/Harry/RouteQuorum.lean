import Harry.ControllerQuorum
import Harry.ZebraliteRoutes

/-! The routes of a datapath and the siblings that compute them, with everything between the two: the controller that
votes under `VOTER_ALL`, its connection to the datapath, the list of the datapath and the kernel. Whatever is lost on
the way and in whatever order the parts go on, a minority of the siblings does not get a route into a kernel. -/

namespace Harry.Forwarding

open Harry.Base Harry.Rfp Harry.DbList
open Harry.Controller (State SibRef VoterType Router RibRoute Output winner votesFor votesFor_iff)
open Harry.Zebralite (Datapath Arrival RouteIpv6 fwdControlInput routeSetBy routesSetBy installed rfpIpv6Route)
open scoped List

variable {ρ : Type} [DecidableEq ρ]

/-- A controller, what it has sent to one of its routers that the router has not read, and that router. -/
structure System (ρ : Type) where
  controller : State
  channel : List Rfpbuf
  datapath : Datapath ρ

/-- What `router.c` asks a router for. -/
inductive RouterRequest where
  | features | statsRoutes | addresses

/-- `routeflow_alloc` of a request. -/
def RouterRequest.message (request : RouterRequest) (xid : UInt32) : Rfpbuf :=
  .routeflowAllocXid (match request with
    | .features => .featuresRequest
    | .statsRoutes => .statsRoutesRequest
    | .addresses => .addressesRequest) xid []

inductive Event (ρ : Type) where
  | controller (e : Controller.Event)
  | request (request : RouterRequest) (xid : UInt32)
  /-- A message that `rconn_send` does not get through. -/
  | lost (n : Nat)
  /-- The datapath reads a message; a new route would be put at `route`. -/
  | deliver (route : ρ) (pads : Nat → UInt16)

/-- What goes to router `r`, by whichever of the two ways. -/
def forwardedBy (r : Nat) : Output → Option Rfpbuf
  | .routerForward _ i msg => if i = r then some msg else none
  | _ => none

/-- The controller with router `r`, whose routes are the list at `rib`. -/
def machine (r fuel : Nat) (rib : ρ) : Machine (System ρ) (Event ρ) Output where
  step s
    | .controller e =>
      ⟨(Controller.machine.step s.controller e).outs,
        (Controller.machine.step s.controller e).result.map fun controller =>
          { s with
            controller
            channel := s.channel ++ (Controller.machine.step s.controller e).outs.filterMap (forwardedBy r) }⟩
    | .request request xid => pure { s with channel := s.channel ++ [request.message xid] }
    | .lost n => pure { s with channel := s.channel.eraseIdx n }
    | .deliver route pads =>
      match s.channel with
      | [] => pure s
      | msg :: channel => do
        let (datapath, _) ← Exec.deref (fwdControlInput fuel rib ⟨msg, route, pads⟩ s.datapath)
        pure { s with channel, datapath }

/-- What the siblings and the other parts of the controller do in a run. -/
def controllerEvents (es : List (Event ρ)) : List Controller.Event :=
  es.filterMap fun
    | .controller e => some e
    | _ => none

/-- The memory that a run has for new routes. -/
def addresses (es : List (Event ρ)) : List ρ :=
  es.filterMap fun
    | .deliver route _ => some route
    | _ => none

variable {r fuel : Nat} {rib : ρ} {c : State} {dp : Datapath ρ}

theorem run_snoc {as : List (Arrival ρ)} {a : Arrival ρ} {dp' dp'' : Datapath ρ} {sent more : List Zebralite.Sent}
    (h : Zebralite.run fuel rib as dp = some (dp', sent)) (ha : fwdControlInput fuel rib a dp' = some (dp'', more)) :
    Zebralite.run fuel rib (as ++ [a]) dp = some (dp'', sent ++ more) := by
  induction as generalizing dp sent with
  | nil =>
      cases h
      simp [Zebralite.run, ha]
  | cons b as ih =>
      simp only [Zebralite.run, Option.bind_eq_bind, Option.bind_eq_some_iff, List.cons_append] at h ⊢
      obtain ⟨⟨dp₁, sent₁⟩, hb, ⟨dp₂, sent₂⟩, hrest, heq⟩ := h
      cases heq
      exact ⟨_, hb, _, ih hrest, by rw [List.append_assoc]⟩

/-- The controller has made its own run, the datapath has read messages one after another, and the requests for routes
among them and among those that are on the way were forwarded by the controller. -/
structure Traced (r fuel : Nat) (rib : ρ) (c : State) (dp : Datapath ρ) (es : List (Event ρ)) (os : List Output)
    (s : System ρ) : Prop where
  controller : Controller.machine.run c (controllerEvents es) = ⟨os, some s.controller⟩
  datapath : ∃ as sent, Zebralite.run fuel rib as dp = some (s.datapath, sent) ∧ as.map Arrival.route <+ addresses es ∧
    ∀ m ∈ as.map Arrival.msg ++ s.channel, m.type = some .ipv6RouteSetRequest → ∃ site, .routerForward site r m ∈ os

theorem Traced.step {es : List (Event ρ)} {os : List Output} {s t : System ρ} {e : Event ρ}
    (h : Traced r fuel rib c dp es os s) (hstep : ((machine r fuel rib).step s e).result = some t) :
    Traced r fuel rib c dp (es ++ [e]) (os ++ ((machine r fuel rib).step s e).outs) t := by
  obtain ⟨hcontroller, as, sent, hrun, haddresses, hforwarded⟩ := h
  have haddresses' : as.map Arrival.route <+ addresses (es ++ [e]) := by
    rw [addresses, List.filterMap_append]
    exact haddresses.trans (List.sublist_append_left _ _)
  have hquiet (hother : ∀ e', e ≠ .controller e') :
      Controller.machine.run c (controllerEvents (es ++ [e])) = ⟨os ++ [], some s.controller⟩ := by
    have hnone : controllerEvents [e] = [] := by
      cases e <;> first | rfl | exact absurd rfl (hother _)
    rw [controllerEvents, List.filterMap_append, ← controllerEvents, ← controllerEvents, hnone, List.append_nil,
      hcontroller, List.append_nil]
  cases e with
  | controller e =>
      obtain ⟨c', hc', rfl⟩ := Option.map_eq_some_iff.mp hstep
      refine ⟨?_, as, sent, hrun, haddresses', fun m hm htype => ?_⟩
      · have hone : controllerEvents [(.controller e : Event ρ)] = [e] := rfl
        rw [controllerEvents, List.filterMap_append, ← controllerEvents, ← controllerEvents, hone, Machine.run_snoc,
          hcontroller, Exec.bind_of_some _ rfl, hc']
        rfl
      · rw [← List.append_assoc] at hm
        rcases List.mem_append.mp hm with hm | hm
        · obtain ⟨site, hsite⟩ := hforwarded m hm htype
          exact ⟨site, List.mem_append_left _ hsite⟩
        · obtain ⟨o, ho, heq⟩ := List.mem_filterMap.mp hm
          cases o with
          | routerForward site i msg =>
              rw [forwardedBy] at heq
              split_ifs at heq with hi
              cases heq
              exact ⟨site, List.mem_append_right _ (hi ▸ ho)⟩
          | _ => cases heq
  | request request xid =>
      cases hstep
      refine ⟨hquiet nofun, as, sent, hrun, haddresses', fun m hm htype => ?_⟩
      rw [← List.append_assoc] at hm
      rcases List.mem_append.mp hm with hm | hm
      · obtain ⟨site, hsite⟩ := hforwarded m hm htype
        exact ⟨site, List.mem_append_left _ hsite⟩
      · rw [List.mem_singleton.mp hm] at htype
        cases request <;> cases htype
  | lost n =>
      cases hstep
      refine ⟨hquiet nofun, as, sent, hrun, haddresses', fun m hm htype => ?_⟩
      rw [List.mem_append] at hm
      obtain ⟨site, hsite⟩ := hforwarded m (List.mem_append.mpr (hm.imp_right List.mem_of_mem_eraseIdx)) htype
      exact ⟨site, List.mem_append_left _ hsite⟩
  | deliver route pads =>
      cases hchannel : s.channel with
      | nil =>
          simp only [machine, hchannel] at hstep ⊢
          cases hstep
          exact ⟨hquiet nofun, as, sent, hrun, haddresses', by simpa [hchannel] using hforwarded⟩
      | cons msg channel =>
          simp only [machine, hchannel] at hstep ⊢
          obtain ⟨⟨dp', more⟩, hfwd, hstep⟩ := Exec.result_bind_eq_some.mp hstep
          cases hstep
          have hfwd' : fwdControlInput fuel rib ⟨msg, route, pads⟩ s.datapath = some (dp', more) := hfwd
          refine ⟨?_, as ++ [⟨msg, route, pads⟩], sent ++ more, run_snoc hrun hfwd', ?_, ?_⟩
          · rw [hfwd', Exec.deref_some_bind]
            exact hquiet nofun
          · rw [addresses, List.filterMap_append, List.map_append]
            exact haddresses.append (List.Sublist.refl _)
          · rw [hfwd', Exec.deref_some_bind, Exec.outs_pure, List.append_nil]
            simpa [hchannel] using hforwarded

theorem traced_of_run {s : System ρ} {es : List (Event ρ)}
    (h : ((machine r fuel rib).run ⟨c, [], dp⟩ es).result = some s) :
    Traced r fuel rib c dp es ((machine r fuel rib).run ⟨c, [], dp⟩ es).outs s := by
  refine ((machine r fuel rib).run_history (P := Traced r fuel rib c dp) (Q := fun _ _ => True) ?_ trivial
    (fun es os s e hs _ => ⟨trivial, fun t ht => hs.step ht⟩) (fun _ _ _ _ => trivial) es).2 s h
  exact ⟨rfl, [], [], rfl, List.Sublist.refl _, fun m hm => by cases hm⟩

/-! ### Quorums -/

/-- A message that a router gets and that is not a BGP packet has been sent by a sibling outside of any minority. -/
theorem exists_sender {routers : List Router} {ribRoutes : List RibRoute} {numSibs : Int}
    {es : List Controller.Event} {site : Controller.CallSite} {m : Rfpbuf} (hm : m.type ≠ some .forwardBgp)
    (h : .routerForward site r m ∈
      (Controller.machine.run (State.sibRouterInit routers ribRoutes numSibs .all) es).outs)
    {F : Finset ℕ} (hF : 2 * (F.card : Int) ≤ numSibs) :
    ∃ i, i ∉ F ∧ ∃ env, Controller.Event.recv (.ospf6 i) m env ∈ es := by
  obtain ⟨pre, e, post, c, rfl, hpre, ho⟩ := Controller.machine.mem_outs_run h
  rcases Controller.routerForward_of_step ho with ⟨-, htype⟩ | ⟨-, c', env, hvote, hwin⟩
  · exact absurd htype hm
  have hreach : Controller.Reached numSibs .all c := ⟨routers, ribRoutes, pre, hpre⟩
  have hstep := Controller.stepped_of_voteOf hvote
  have hok : c'.Ok := hreach.ok.stepped hstep
  have hhosts : Controller.numHosts c' = numSibs := by
    rw [Controller.numHosts_all (hstep.conf.2.trans hreach.conf.2), hstep.conf.1, hreach.conf.1]
  have hmaj := (Controller.lt_countP_of_winner hok.queue_eq_nil hwin).1
  rw [hhosts] at hmaj
  obtain ⟨i, hi, hiF⟩ := exists_mem_positions_not_mem (n := numSibs.toNat) (F := F) (p := votesFor m)
    (l := c'.ospf6Siblings) (by omega) (by omega)
  obtain ⟨sr, hsr, hv⟩ := mem_positions.mp hi
  obtain ⟨env', hmem⟩ := ((Controller.queuesSent_of_run hpre).stepped hstep) (.ospf6 i) sr hsr m
    (List.mem_of_mem_head? (votesFor_iff.mp hv).2)
  refine ⟨i, hiF, env', ?_⟩
  rw [List.append_cons]
  exact List.mem_append_left _ hmem

theorem size_of_run {as : List (Arrival ρ)} {dp' : Datapath ρ} {sent : List Zebralite.Sent}
    (h : Zebralite.run fuel rib as dp = some (dp', sent)) :
    ∀ a ∈ as, a.msg.type = some .ipv6RouteSetRequest → 48 ≤ a.msg.size := by
  induction as generalizing dp sent with
  | nil => exact nofun
  | cons b as ih =>
      simp only [Zebralite.run, Option.bind_eq_bind, Option.bind_eq_some_iff] at h
      obtain ⟨⟨dp₁, sent₁⟩, hb, ⟨dp₂, sent₂⟩, hrest, heq⟩ := h
      cases heq
      refine List.forall_mem_cons.mpr ⟨fun htype => ?_, ih hrest⟩
      by_contra hshort
      have hnone : rfpIpv6Route b.msg = none := by
        rw [rfpIpv6Route, bytesAt, if_neg (by simpa [Rfpbuf.size] using hshort)]
        rfl
      rw [fwdControlInput, htype] at hb
      simp [Zebralite.recvIpv6RouteSetRequest, hnone] at hb

/-- After any run of the whole, a prefix has in the kernel of the router the routes from the beginning, or one route.
That one was read from a message which every minority of the siblings has left to another one to send. -/
theorem routes_by_quorum {m : Members ρ} {ms : List ρ} (hr : Rings dp.links m) (hm : m rib = some ms)
    (hkernel : dp.kernel = []) {routers : List Router} {ribRoutes : List RibRoute} {numSibs : Int}
    {es : List (Event ρ)} (hfresh : (addresses es).Nodup) (hfree : ∀ a ∈ addresses es, Free m a)
    (hfuel : ms.length + es.length < fuel) {s : System ρ}
    (hrun : ((machine r fuel rib).run ⟨State.sibRouterInit routers ribRoutes numSibs .all, [], dp⟩ es).result = some s)
    (k : List UInt8 × UInt8) :
    (s.datapath.kernel.foldl installed (ms.map dp.route)).filter (·.key = k) =
        (ms.map dp.route).filter (·.key = k) ∨
      ∃ msg route, routeSetBy msg = some route ∧
        (s.datapath.kernel.foldl installed (ms.map dp.route)).filter (·.key = k) = [route] ∧
        ∀ F : Finset ℕ, 2 * (F.card : Int) ≤ numSibs →
          ∃ i, i ∉ F ∧ ∃ env, Controller.Event.recv (.ospf6 i) msg env ∈ controllerEvents es := by
  obtain ⟨hcontroller, as, sent, hdatapath, haddresses, hforwarded⟩ := traced_of_run hrun
  have hlength : as.length ≤ es.length := by
    have hle := haddresses.length_le
    rw [List.length_map] at hle
    exact hle.trans (List.length_filterMap_le _ _)
  have hstart : Zebralite.Shows m rib (ms.map dp.route) dp ms := ⟨hr, hm, by rw [hkernel, List.foldl_nil]⟩
  obtain ⟨dp', sent', ms', hdp', hshows, hroutes⟩ := hstart.run (hfresh.sublist haddresses)
    (fun a ha => hfree _ (haddresses.subset (List.mem_map_of_mem ha))) (size_of_run hdatapath)
      (show ms.length + as.length < fuel by omega)
  obtain ⟨rfl, -⟩ := Prod.mk.inj (Option.some.inj (hdatapath.symm.trans hdp'))
  rw [hshows.kernel, hroutes, Zebralite.filter_foldl_replaced]
  cases hlast : ((routesSetBy as).filter (·.key = k)).getLast? with
  | none => exact .inl rfl
  | some route =>
      obtain ⟨a, ha, hset⟩ := List.mem_filterMap.mp (List.mem_filter.mp (List.mem_of_getLast? hlast)).1
      have htype : a.msg.type = some .ipv6RouteSetRequest := by
        rw [routeSetBy] at hset
        split_ifs at hset with htype
        exact htype
      obtain ⟨site, hsite⟩ := hforwarded a.msg (List.mem_append_left _ (List.mem_map_of_mem ha)) htype
      have hout : .routerForward site r a.msg ∈
          (Controller.machine.run (State.sibRouterInit routers ribRoutes numSibs .all) (controllerEvents es)).outs := by
        rw [hcontroller]
        exact hsite
      exact .inr ⟨a.msg, route, hset, rfl, fun F hF => exists_sender (by simp [htype]) hout hF⟩

/-- Two of three siblings have the same route. -/
def twoOfThree : List (Event Nat) :=
  (Controller.connectAll 3 ++ [0, 1].map fun i => Controller.Event.recv (.ospf6 i)
    (Zebralite.ctrlClientRouteSet 3 0 ⟨List.replicate 16 1, 64, 2⟩ (List.replicate 16 9)) Controller.promptEnv).map
      .controller ++ [.request .features 0, .lost 1, .deliver 1 fun _ => 0]

theorem routes_by_quorum_of_two : ∃ (s : System Nat) (msg : Rfpbuf) (route : RouteIpv6),
    ((machine 0 50 0).run ⟨State.sibRouterInit [⟨[]⟩] [] 3 .all, [], Zebralite.noRoutes⟩ twoOfThree).result = some s ∧
    routeSetBy msg = some route ∧
    (s.datapath.kernel.foldl installed []).filter (·.key = (List.replicate 16 1, 64)) = [route] ∧
    ∀ F : Finset ℕ, 2 * (F.card : Int) ≤ 3 →
      ∃ i, i ∉ F ∧ ∃ env, Controller.Event.recv (.ospf6 i) msg env ∈ controllerEvents twoOfThree := by
  obtain ⟨s, hrun, hroute⟩ := exists_of_any
    (p := fun s : System Nat =>
      (s.datapath.kernel.foldl installed []).filter (·.key = (List.replicate 16 1, 64)) ≠ [])
    (o := ((machine 0 50 0).run ⟨State.sibRouterInit [⟨[]⟩] [] 3 .all, [], Zebralite.noRoutes⟩ twoOfThree).result)
    (by decide)
  have hr : Rings Zebralite.noRoutes.links (Function.update (fun _ => none) 0 (some [])) :=
    (rings_none ⟨id, id⟩).single (by simp)
  have hfree : ∀ a ∈ addresses twoOfThree, Free (Function.update (fun _ => none) 0 (some [])) a := by
    intro a ha
    have haddresses : addresses twoOfThree = [1] := rfl
    rw [haddresses, List.mem_singleton] at ha
    exact free_single (by rw [ha]; decide)
  obtain hold | ⟨msg, route, hset, hkernel, hsenders⟩ := routes_by_quorum hr (Function.update_self ..) rfl
    (by decide) hfree (by decide) hrun (List.replicate 16 1, 64)
  · exact absurd hold hroute
  · exact ⟨s, msg, route, hrun, hset, hkernel, hsenders⟩

end Harry.Forwarding
