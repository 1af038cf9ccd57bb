import EfiLvgl.Console.ConIn

/-!
# EfiLvgl.Console.KeyNotify — who holds which registration

`RegisterKeyNotify` looks for the pair in the list with the matcher for pressed keys, in
which a registered shift or toggle state of 0 matches every state. So a pair can be taken for
another one that is already there, and its caller gets a handle that is bound to other key
data. A call is `Unmistaken` when the list tells its pair from the others; the registry keeps
its contract along a run exactly when all of its calls are (`registryOk_iff_unmistaken`).
-/

namespace EfiLvgl.ConIn

open EfiLvgl.Run

/-! ## The loops -/

theorem isKeyRegistered_self (keyData : KeyData) : isKeyRegistered keyData keyData = true := by
  simp [isKeyRegistered]

/-- The entry stands for the pair, by the matcher for pressed keys. -/
def KeyNotify.Matches (keyNotify : KeyNotify) (keyData : KeyData) (callback : Ptr) : Prop :=
  isKeyRegistered keyNotify.keyData keyData = true ∧ keyNotify.callback = callback

instance (keyNotify : KeyNotify) (keyData : KeyData) (callback : Ptr) :
    Decidable (keyNotify.Matches keyData callback) :=
  inferInstanceAs (Decidable (_ ∧ _))

theorem findKeyNotify_eq_find? (keyData : KeyData) (callback : Ptr) (list : List KeyNotify) :
    findKeyNotify keyData callback list = list.find? fun n => n.Matches keyData callback := by
  induction list with
  | nil => rfl
  | cons n rest ih =>
      rw [findKeyNotify, List.find?_cons, ih]
      by_cases h : n.Matches keyData callback
      · rw [if_pos (And.intro h.1 h.2)]
        simp [h]
      · rw [if_neg (fun hand => h ⟨hand.1, hand.2⟩)]
        simp [h]

/-- The loop of `UnregisterKeyNotify` finds nothing to remove. -/
theorem removeKeyNotify_eq_none {handle : Ptr} {list : List KeyNotify} :
    removeKeyNotify handle list = none ↔ ∀ n ∈ list, n.address ≠ handle := by
  induction list with
  | nil => simp [removeKeyNotify]
  | cons n rest ih =>
      rw [removeKeyNotify, List.forall_mem_cons, ← ih]
      by_cases h : n.address = handle
      · simp [h]
      · simp [h]

/-- It removes one entry; no other has its address. -/
theorem removeKeyNotify_eq_some {handle : Ptr} {list list' : List KeyNotify}
    (hnodup : (list.map KeyNotify.address).Nodup) (h : removeKeyNotify handle list = some list') :
    list' = list.filter fun n => n.address ≠ handle := by
  induction list generalizing list' with
  | nil => cases h
  | cons n rest ih =>
      rw [List.map_cons, List.nodup_cons] at hnodup
      rw [removeKeyNotify] at h
      by_cases hn : n.address = handle
      · rw [if_pos hn] at h
        cases h
        have hrest : ∀ m ∈ rest, m.address ≠ handle := by
          intro m hm heq
          apply hnodup.1
          rw [hn, ← heq]
          exact List.mem_map_of_mem hm
        rw [List.filter_cons_of_neg (by simp [hn]), List.filter_eq_self.mpr]
        intro m hm
        simpa using hrest m hm
      · rw [if_neg hn, Option.map_eq_some_iff] at h
        rcases h with ⟨rest', hrest', rfl⟩
        rw [List.filter_cons_of_pos (by simpa using hn), ih hnodup.2 hrest']

/-! ## The registry -/

/-- The entry of a registration. -/
def Registration.entry (r : Registration) : KeyNotify := ⟨r.handle, r.keyData, r.callback⟩

/-- The list is what the callers hold, an entry each, and no entry is hidden by one before
it. -/
structure Registered (s : Session) : Prop where
  list_eq : s.dev.keyNotifyList = s.ledger.live.map Registration.entry
  nodup : (s.dev.keyNotifyList.map KeyNotify.address).Nodup
  apart : s.dev.keyNotifyList.Pairwise fun n m => ¬ n.Matches m.keyData m.callback

/-- A pair that an entry stands for is itself in the list. -/
def Unmistaken (s : Session) : Call → Prop
  | .registerKeyNotify (some keyData) (some callback) (some _) _ =>
      (∃ n ∈ s.dev.keyNotifyList, n.Matches keyData callback) →
        ∃ n ∈ s.dev.keyNotifyList, n.keyData = keyData ∧ n.callback = callback
  | _ => True

/-- The contract of the registry for one step. -/
structure RegistryOk (s s' : Session) (evs : List (Call × Reply)) : Prop where
  /-- Registrations of different pairs have different handles. -/
  distinct : ∀ r ∈ s'.ledger.live, ∀ r' ∈ s'.ledger.live,
    (r.keyData, r.callback) ≠ (r'.keyData, r'.callback) → r.handle ≠ r'.handle
  /-- A handle is bound to the pair it was requested with. -/
  bound : ∀ r ∈ s'.ledger.live, ∀ n,
    (n ∈ s'.dev.keyNotifyList ∧ n.address = r.handle) ↔ n = r.entry
  /-- A pair that is registered gets its handle again. -/
  again : ∀ keyData callback destination allocated reply,
    (Call.registerKeyNotify (some keyData) (some callback) (some destination) allocated, reply)
        ∈ evs →
      ∀ r ∈ s.ledger.live, (r.keyData, r.callback) = (keyData, callback) →
        reply.status = .success ∧ reply.notifyHandle = some r.handle ∧
          s'.dev.keyNotifyList = s.dev.keyNotifyList
  /-- Unregistering removes a live registration, and only that. -/
  remove : ∀ handle reply, (Call.unregisterKeyNotify (some handle), reply) ∈ evs →
    ∀ r ∈ s.ledger.live, r.handle = handle → reply.status = .success ∧
      s'.dev.keyNotifyList = s.dev.keyNotifyList.filter fun n => n.address ≠ handle
  /-- Any other handle is refused. -/
  refuse : ∀ handle reply, (Call.unregisterKeyNotify handle, reply) ∈ evs →
    (∀ r ∈ s.ledger.live, some r.handle ≠ handle) →
      reply.status = .invalidParameter ∧ s'.dev.keyNotifyList = s.dev.keyNotifyList

theorem findKeyNotify_eq_none {keyData : KeyData} {callback : Ptr} {list : List KeyNotify} :
    findKeyNotify keyData callback list = none ↔ ∀ n ∈ list, ¬ n.Matches keyData callback := by
  rw [findKeyNotify_eq_find?, List.find?_eq_none]
  simp

theorem matches_of_findKeyNotify {keyData : KeyData} {callback : Ptr} {list : List KeyNotify}
    {n : KeyNotify} (h : findKeyNotify keyData callback list = some n) :
    n ∈ list ∧ n.Matches keyData callback := by
  rw [findKeyNotify_eq_find?] at h
  exact ⟨List.mem_of_find?_eq_some h, by simpa using List.find?_some h⟩

/-- When no entry is hidden, a pair that is in the list is found under its own entry. -/
theorem findKeyNotify_eq_some {list : List KeyNotify}
    (hapart : list.Pairwise fun n m => ¬ n.Matches m.keyData m.callback) {n : KeyNotify}
    (hn : n ∈ list) : findKeyNotify n.keyData n.callback list = some n := by
  induction list with
  | nil => cases hn
  | cons m rest ih =>
      rw [List.pairwise_cons] at hapart
      rw [findKeyNotify]
      rcases List.mem_cons.mp hn with rfl | hrest
      · rw [if_pos ⟨isKeyRegistered_self _, rfl⟩]
      · rw [if_neg fun hand => hapart.1 n hrest ⟨hand.1, hand.2⟩, ih hapart.2 hrest]

/-! ## Steps that keep the registry -/

theorem registered_initial (keyToggleState : UInt8) :
    Registered (Session.initial keyToggleState) :=
  ⟨rfl, List.nodup_nil, List.Pairwise.nil⟩

theorem Registered.congr {s s' : Session} (h : Registered s)
    (hlist : s'.dev.keyNotifyList = s.dev.keyNotifyList) (hlive : s'.ledger.live = s.ledger.live) :
    Registered s' := by
  refine ⟨?_, ?_, ?_⟩
  · rw [hlist, hlive, h.list_eq]
  · rw [hlist]
    exact h.nodup
  · rw [hlist]
    exact h.apart

theorem Registered.mem_live {s : Session} (h : Registered s) {n : KeyNotify}
    (hn : n ∈ s.dev.keyNotifyList) : ⟨n.keyData, n.callback, n.address⟩ ∈ s.ledger.live := by
  rw [h.list_eq, List.mem_map] at hn
  rcases hn with ⟨r, hr, rfl⟩
  exact hr

theorem Registered.entry_mem {s : Session} (h : Registered s) {r : Registration}
    (hr : r ∈ s.ledger.live) : r.entry ∈ s.dev.keyNotifyList := by
  rw [h.list_eq]
  exact List.mem_map_of_mem hr

/-- Two entries at one address are one. -/
theorem Registered.eq_of_address {s : Session} (h : Registered s) {n m : KeyNotify}
    (hn : n ∈ s.dev.keyNotifyList) (hm : m ∈ s.dev.keyNotifyList)
    (heq : n.address = m.address) : n = m :=
  List.inj_on_of_nodup_map h.nodup hn hm heq

/-- The parts of the contract that hold of a state. -/
theorem Registered.bound {s : Session} (h : Registered s) :
    ∀ r ∈ s.ledger.live, ∀ n,
      (n ∈ s.dev.keyNotifyList ∧ n.address = r.handle) ↔ n = r.entry := by
  intro r hr n
  constructor
  · rintro ⟨hn, haddress⟩
    exact h.eq_of_address hn (h.entry_mem hr) haddress
  · rintro rfl
    exact ⟨h.entry_mem hr, rfl⟩

theorem Registered.distinct {s : Session} (h : Registered s) :
    ∀ r ∈ s.ledger.live, ∀ r' ∈ s.ledger.live,
      (r.keyData, r.callback) ≠ (r'.keyData, r'.callback) → r.handle ≠ r'.handle := by
  intro r hr r' hr' hne heq
  have hentry := (h.bound r' hr' r.entry).mp ⟨h.entry_mem hr, heq⟩
  cases r
  cases r'
  cases hentry
  exact hne rfl

/-- A pair that is not mistaken for another is found when it is there. -/
theorem Registered.find_eq {s : Session} (h : Registered s) {keyData : KeyData} {callback : Ptr}
    (hmistake : (∃ n ∈ s.dev.keyNotifyList, n.Matches keyData callback) →
      ∃ n ∈ s.dev.keyNotifyList, n.keyData = keyData ∧ n.callback = callback) {n : KeyNotify}
    (hfind : findKeyNotify keyData callback s.dev.keyNotifyList = some n) :
    n.keyData = keyData ∧ n.callback = callback := by
  rcases hmistake ⟨n, matches_of_findKeyNotify hfind⟩ with ⟨m, hm, rfl, rfl⟩
  rw [findKeyNotify_eq_some h.apart hm] at hfind
  cases hfind
  exact ⟨rfl, rfl⟩

/-- A new entry for a pair that nothing in the list stands for. -/
theorem Registered.add {s : Session} (h : Registered s) {keyData : KeyData} {callback : Ptr}
    {address : Ptr} (hfresh : ∀ n ∈ s.dev.keyNotifyList, n.address ≠ address)
    (hnone : findKeyNotify keyData callback s.dev.keyNotifyList = none) :
    Registered ⟨{ s.dev with
      keyNotifyList := s.dev.keyNotifyList ++ [⟨address, keyData, callback⟩] },
      s.ledger.grant ⟨keyData, callback, address⟩⟩ := by
  have hnew : (⟨keyData, callback, address⟩ : Registration) ∉ s.ledger.live := by
    intro hmem
    exact hfresh _ (h.entry_mem hmem) rfl
  refine ⟨?_, ?_, ?_⟩
  · rw [Ledger.grant, if_neg hnew, List.map_append, ← h.list_eq]
    rfl
  · rw [List.map_append, List.nodup_append]
    refine ⟨h.nodup, List.nodup_singleton _, ?_⟩
    intro a ha b hb heq
    rcases List.mem_map.mp ha with ⟨n, hn, rfl⟩
    rw [List.map_singleton, List.mem_singleton] at hb
    exact hfresh n hn (heq.trans hb)
  · rw [List.pairwise_append]
    refine ⟨h.apart, List.pairwise_singleton _ _, ?_⟩
    intro n hn m hm
    rw [List.mem_singleton.mp hm]
    exact findKeyNotify_eq_none.mp hnone n hn

/-- The entry at an address goes, and with it the registration. -/
theorem Registered.remove {s : Session} (h : Registered s) {handle : Ptr}
    {list : List KeyNotify} (hremove : removeKeyNotify handle s.dev.keyNotifyList = some list) :
    Registered ⟨{ s.dev with keyNotifyList := list },
      { s.ledger with live := s.ledger.live.filter fun r => r.handle ≠ handle }⟩ := by
  have hlist := removeKeyNotify_eq_some h.nodup hremove
  subst hlist
  refine ⟨?_, ?_, ?_⟩
  · show s.dev.keyNotifyList.filter _ = (s.ledger.live.filter _).map _
    rw [h.list_eq, List.filter_map]
    rfl
  · exact h.nodup.sublist (List.filter_sublist.map _)
  · exact h.apart.sublist List.filter_sublist

/-! ## One step -/

/-- Calls of other interfaces leave the registry alone. -/
def Call.isRegistry : Call → Bool
  | .registerKeyNotify _ _ _ _ => true
  | .unregisterKeyNotify _ => true
  | _ => false

theorem dequeKeyData_list (dev : ConsoleDev) :
    (dequeKeyData dev).1.keyNotifyList = dev.keyNotifyList := by
  unfold dequeKeyData
  split <;> rfl

theorem cleanUpKeyQueue_list (dev : ConsoleDev) :
    (cleanUpKeyQueue dev).1.keyNotifyList = dev.keyNotifyList := by
  induction dev using cleanUpKeyQueue.induct with
  | case1 dev h =>
      rw [cleanUpKeyQueue, if_pos h]
      exact dequeKeyData_list dev
  | case2 dev h ih =>
      rw [cleanUpKeyQueue, if_neg h, ih]
      exact dequeKeyData_list dev

theorem readKeyStroke_list (dev : ConsoleDev) :
    (readKeyStroke dev).1.keyNotifyList = dev.keyNotifyList := by
  unfold readKeyStroke
  dsimp only
  split <;> exact dequeKeyData_list dev

theorem step_frame {s s' : Session} {call : Call} {evs : List (Call × Reply)}
    (hstep : Session.step s call = some (s', evs)) (hcall : call.isRegistry = false) :
    s'.dev.keyNotifyList = s.dev.keyNotifyList ∧ s'.ledger.live = s.ledger.live := by
  rcases Session.step_eq_some.mp hstep with ⟨dev, reply, hreply, rfl, rfl⟩
  cases call with
  | inputKey keyData allocated =>
      cases allocated <;> cases hreply <;> exact ⟨rfl, rfl⟩
  | readKeyStroke =>
      cases hreply
      exact ⟨readKeyStroke_list _, rfl⟩
  | readKeyStrokeEx keyData =>
      cases hreply
      refine ⟨?_, rfl⟩
      cases keyData with
      | none => rfl
      | some buffer => exact dequeKeyData_list _
  | conInReset =>
      cases hreply
      exact ⟨cleanUpKeyQueue_list _, rfl⟩
  | resetEx =>
      cases hreply
      exact ⟨cleanUpKeyQueue_list _, rfl⟩
  | setState keyToggleState =>
      cases keyToggleState <;> cases hreply <;> exact ⟨rfl, rfl⟩
  | waitForKey =>
      cases hreply
      exact ⟨rfl, rfl⟩
  | registerKeyNotify => cases hcall
  | unregisterKeyNotify => cases hcall

/-- What `RegisterKeyNotify` does with parameters that are given. -/
theorem step_register {s s' : Session} {keyData : KeyData} {callback destination : Ptr}
    {allocated : Option Ptr} {evs : List (Call × Reply)}
    (hstep : Session.step s
      (.registerKeyNotify (some keyData) (some callback) (some destination) allocated) =
        some (s', evs)) :
    (∃ n, findKeyNotify keyData callback s.dev.keyNotifyList = some n ∧
        s' = ⟨s.dev, s.ledger.grant ⟨keyData, callback, n.address⟩⟩ ∧
        evs = [(.registerKeyNotify (some keyData) (some callback) (some destination) allocated,
          { status := .success, notifyHandle := some n.address })]) ∨
    (findKeyNotify keyData callback s.dev.keyNotifyList = none ∧
      ((allocated = none ∧ s' = s) ∨
        ∃ address, allocated = some address ∧
          (∀ n ∈ s.dev.keyNotifyList, n.address ≠ address) ∧
          s' = ⟨{ s.dev with
              keyNotifyList := s.dev.keyNotifyList ++ [⟨address, keyData, callback⟩] },
            s.ledger.grant ⟨keyData, callback, address⟩⟩)) := by
  rcases Session.step_eq_some.mp hstep with ⟨dev, reply, hreply, rfl, rfl⟩
  simp only [ConsoleDev.call, registerKeyNotify] at hreply
  split at hreply
  · cases hreply
  · next hfresh =>
      cases hfind : findKeyNotify keyData callback s.dev.keyNotifyList with
      | some n =>
          rw [hfind] at hreply
          cases hreply
          -- an entry with the same key and callback is handed out again
          exact Or.inl ⟨n, rfl, rfl, rfl⟩
      | none =>
          rw [hfind] at hreply
          refine Or.inr ⟨rfl, ?_⟩
          cases allocated with
          | none =>
              cases hreply
              exact Or.inl ⟨rfl, rfl⟩
          | some address =>
              cases hreply
              refine Or.inr ⟨address, rfl, ?_, rfl⟩
              intro n hn heq
              apply hfresh
              rw [List.any_eq_true]
              exact ⟨n, hn, by simp [heq]⟩

/-- Without key data, a callback or a place for the handle the call is refused. -/
theorem step_register_null {s s' : Session} {keyData : Option KeyData}
    {callback destination allocated : Option Ptr} {evs : List (Call × Reply)}
    (hstep : Session.step s (.registerKeyNotify keyData callback destination allocated) =
      some (s', evs))
    (hnull : keyData = none ∨ callback = none ∨ destination = none) : s' = s := by
  rcases Session.step_eq_some.mp hstep with ⟨dev, reply, hreply, rfl, rfl⟩
  simp only [ConsoleDev.call] at hreply
  split at hreply
  · cases hreply
  · cases keyData with
    | none =>
        cases hreply
        rfl
    | some keyData =>
        cases callback with
        | none =>
            cases destination <;> cases hreply <;> rfl
        | some callback =>
            cases destination with
            | none =>
                cases hreply
                rfl
            | some destination => simp at hnull

/-- What `UnregisterKeyNotify` does. -/
theorem step_unregister {s s' : Session} {handle : Option Ptr} {evs : List (Call × Reply)}
    (hstep : Session.step s (.unregisterKeyNotify handle) = some (s', evs)) :
    ((∀ h, handle = some h → removeKeyNotify h s.dev.keyNotifyList = none) ∧ s' = s ∧
        evs = [(.unregisterKeyNotify handle, { status := .invalidParameter })]) ∨
    ∃ h list, handle = some h ∧ removeKeyNotify h s.dev.keyNotifyList = some list ∧
      s' = ⟨{ s.dev with keyNotifyList := list },
        { s.ledger with live := s.ledger.live.filter fun r => r.handle ≠ h }⟩ ∧
      evs = [(.unregisterKeyNotify handle, { status := .success })] := by
  rcases Session.step_eq_some.mp hstep with ⟨dev, reply, hreply, rfl, rfl⟩
  simp only [ConsoleDev.call, unregisterKeyNotify] at hreply
  cases handle with
  | none =>
      cases hreply
      refine Or.inl ⟨?_, rfl, rfl⟩
      intro h heq
      cases heq
  | some h =>
      -- a handle that is not in the list is refused like NULL
      cases hremove : removeKeyNotify h s.dev.keyNotifyList with
      | none =>
          simp only [hremove] at hreply
          cases hreply
          refine Or.inl ⟨?_, rfl, rfl⟩
          intro h' heq
          cases heq
          exact hremove
      | some list =>
          simp only [hremove] at hreply
          cases hreply
          exact Or.inr ⟨h, list, rfl, hremove, rfl, rfl⟩

/-- A grant of a registration that is held already changes nothing. -/
theorem grant_held {ledger : Ledger} {r : Registration} (h : r ∈ ledger.live) :
    ledger.grant r = ledger := if_pos h

theorem registered_step {s s' : Session} {call : Call} {evs : List (Call × Reply)}
    (h : Registered s) (hok : Unmistaken s call)
    (hstep : Session.step s call = some (s', evs)) : Registered s' := by
  cases hcall : call.isRegistry with
  | false =>
      have hframe := step_frame hstep hcall
      exact h.congr hframe.1 hframe.2
  | true =>
      cases call with
      | registerKeyNotify keyData callback destination allocated =>
          by_cases hnull : keyData = none ∨ callback = none ∨ destination = none
          · rw [step_register_null hstep hnull]
            exact h
          · simp only [not_or, Option.ne_none_iff_exists'] at hnull
            rcases hnull with ⟨⟨keyData, rfl⟩, ⟨callback, rfl⟩, ⟨destination, rfl⟩⟩
            rcases step_register hstep with ⟨n, hfind, rfl, -⟩ | ⟨hnone, hnew⟩
            · -- the entry that is found is the one of the pair
              rcases h.find_eq hok hfind with ⟨rfl, rfl⟩
              rw [grant_held (h.mem_live (matches_of_findKeyNotify hfind).1)]
              exact h
            · rcases hnew with ⟨-, rfl⟩ | ⟨address, -, hfresh, rfl⟩
              · exact h
              · exact h.add hfresh hnone
      | unregisterKeyNotify handle =>
          rcases step_unregister hstep with ⟨-, rfl, -⟩ | ⟨handle, list, -, hremove, rfl, -⟩
          · exact h
          · exact h.remove hremove
      | _ => cases hcall

/-! ## The contract -/

theorem registryOk_of_unmistaken {s s' : Session} {call : Call} {evs : List (Call × Reply)}
    (h : Registered s) (hok : Unmistaken s call)
    (hstep : Session.step s call = some (s', evs)) : RegistryOk s s' evs := by
  have h' := registered_step h hok hstep
  rcases Session.step_eq_some.mp hstep with ⟨dev, reply, -, -, hevs⟩
  refine ⟨h'.distinct, h'.bound, ?_, ?_, ?_⟩
  · intro keyData callback destination allocated reply' hmem r hr hpair
    rw [hevs] at hmem
    cases List.mem_singleton.mp hmem
    cases hpair
    -- the pair is in the list, so it is found under its own entry
    have hfind : findKeyNotify r.keyData r.callback s.dev.keyNotifyList = some r.entry :=
      findKeyNotify_eq_some h.apart (h.entry_mem hr)
    rcases step_register hstep with ⟨n, hn, rfl, hevs'⟩ | ⟨hnone, -⟩
    · rw [hfind] at hn
      cases hn
      rw [hevs] at hevs'
      cases hevs'
      exact ⟨rfl, rfl, rfl⟩
    · rw [hfind] at hnone
      cases hnone
  · intro handle reply' hmem r hr hhandle
    rw [hevs] at hmem
    cases List.mem_singleton.mp hmem
    rcases step_unregister hstep with ⟨hnone, -, -⟩ | ⟨handle', list, heq, hremove, rfl, hevs'⟩
    · exact absurd hhandle (removeKeyNotify_eq_none.mp (hnone handle rfl) _ (h.entry_mem hr))
    · cases heq
      rw [hevs] at hevs'
      cases hevs'
      exact ⟨rfl, removeKeyNotify_eq_some h.nodup hremove⟩
  · intro handle reply' hmem hdead
    rw [hevs] at hmem
    cases List.mem_singleton.mp hmem
    rcases step_unregister hstep with ⟨-, rfl, hevs'⟩ | ⟨handle', list, heq, hremove, rfl, hevs'⟩
    · rw [hevs] at hevs'
      cases hevs'
      exact ⟨rfl, rfl⟩
    · -- an entry at the address would be a live registration
      have hnone : removeKeyNotify handle' s.dev.keyNotifyList = none := by
        rw [removeKeyNotify_eq_none]
        intro n hn haddress
        apply hdead _ (h.mem_live hn)
        rw [heq, haddress]
      rw [hnone] at hremove
      cases hremove

/-- A pair taken for another one ends up with a handle that is bound to the other. -/
theorem unmistaken_of_registryOk {s s' : Session} {call : Call} {evs : List (Call × Reply)}
    (hok : RegistryOk s s' evs) (hstep : Session.step s call = some (s', evs)) :
    Unmistaken s call := by
  unfold Unmistaken
  split
  · rintro ⟨m, hm, hmatches⟩
    rcases step_register hstep with ⟨n, hfind, rfl, -⟩ | ⟨hnone, -⟩
    · have hn := (matches_of_findKeyNotify hfind).1
      rename_i keyData callback destination allocated
      have hgranted : (⟨keyData, callback, n.address⟩ : Registration) ∈
          (s.ledger.grant ⟨keyData, callback, n.address⟩).live := by
        unfold Ledger.grant
        split
        · assumption
        · exact List.mem_append_right _ (List.mem_singleton_self _)
      have hentry := (hok.bound _ hgranted n).mp ⟨hn, rfl⟩
      refine ⟨n, hn, ?_, ?_⟩
      · rw [hentry]
        rfl
      · rw [hentry]
        rfl
    · exact absurd hmatches (findKeyNotify_eq_none.mp hnone m hm)
  · trivial

/-- Every call of a run meets the contract exactly when none mistakes its pair for another. -/
theorem registryOk_iff_unmistaken (keyToggleState : UInt8) (calls : List Call) (s : Session)
    (h : List (Call × Reply))
    (hrun : run Session.step (Session.initial keyToggleState) calls = some (s, h)) :
    Always Session.step RegistryOk (Session.initial keyToggleState) calls ↔
      Guarded Session.step Unmistaken (Session.initial keyToggleState) calls := by
  refine always_iff_guarded Registered ?_ ?_ calls (registered_initial keyToggleState) hrun
  · intro s s' evs call hs hstep
    constructor
    · intro hok
      exact unmistaken_of_registryOk hok hstep
    · intro hok
      exact registryOk_of_unmistaken hs hok hstep
  · intro s s' evs call hs hok hstep
    exact registered_step hs hok hstep

/-- The letter a, with any shift state. -/
def keyA : KeyData := ⟨⟨0, 97⟩, ⟨0, 0⟩⟩

/-- The letter a, with a shift key held. -/
def keyShiftA : KeyData := ⟨⟨0, 97⟩, ⟨0x80000001, 0⟩⟩

/-- The special key first, then the one that stands for all: both are registered. -/
theorem registryOk_iff_unmistaken_special_first :
    Always Session.step RegistryOk (Session.initial 0)
        [.registerKeyNotify (some keyShiftA) (some 7) (some 1) (some 100),
          .registerKeyNotify (some keyA) (some 7) (some 1) (some 101),
          .unregisterKeyNotify (some 100)] ↔
      Guarded Session.step Unmistaken (Session.initial 0)
        [.registerKeyNotify (some keyShiftA) (some 7) (some 1) (some 100),
          .registerKeyNotify (some keyA) (some 7) (some 1) (some 101),
          .unregisterKeyNotify (some 100)] :=
  registryOk_iff_unmistaken 0 _ _ _ rfl

/-- In the other order the second call gets the handle of the first. -/
theorem registration_mistaken : ¬ ∀ (keyToggleState : UInt8) (calls : List Call) (s : Session)
    (h : List (Call × Reply)),
    run Session.step (Session.initial keyToggleState) calls = some (s, h) →
      Always Session.step RegistryOk (Session.initial keyToggleState) calls := by
  intro hall
  have halways := hall 0
    [.registerKeyNotify (some keyA) (some 7) (some 1) (some 100),
      .registerKeyNotify (some keyShiftA) (some 7) (some 1) (some 101)] _ _ rfl
  have hok := ((halways _ _ rfl).2 _ _ rfl).1
  have hsame : (⟨keyA, 7, 100⟩ : Registration).handle ≠
      (⟨keyShiftA, 7, 100⟩ : Registration).handle :=
    hok.distinct ⟨keyA, 7, 100⟩ (by decide) ⟨keyShiftA, 7, 100⟩ (by decide) (by decide)
  exact hsame rfl

end EfiLvgl.ConIn
