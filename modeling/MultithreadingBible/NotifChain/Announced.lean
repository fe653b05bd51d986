import MultithreadingBible.NotifChain.Notified

/-!
# Which registrations are announced

A registration for a key that has an entry is announced: `rt_table_register_for_notification` calls
the new subscriber with `NFC_ADD`.  The entry need not be the publisher's, since a registration for
an unknown key creates one as well.

* `isPublished k log` -- the publisher has added the key and not deleted it since.
* `routesOf_isSome` -- a key has an entry when it is published or somebody is registered for it.
* `rt_announced_iff` -- which registrations are announced as they should be.
-/

namespace MultithreadingBible
namespace NotifChain

open Lib

universe u

variable {A F : Type u}

/-- Whether a key is published after one more call. -/
def Record.isPublished (k : RtEntryKeys) (b : Bool) (r : Record A F) : Bool :=
  match r.call with
  | .register _ _ _ _ => b
  | .addOrUpdate dest mask _ _ => if rtKey dest mask = k then true else b
  | .delete dest mask => if rtKey dest mask = k then false else b

/-- The publisher has added the key and not deleted it since. -/
def isPublished (k : RtEntryKeys) (log : List (Record A F)) : Bool :=
  log.foldl (Record.isPublished k) false

/-- A record says of a registration that it was announced exactly if its key was published. -/
def AnnouncedRightly (log : List (Record A F)) (r : Record A F) : Prop :=
  match r.call with
  | .register key _ appCb subsId =>
      (∃ e, (⟨appCb, subsId⟩ : Registration F).call e .add ∈ r.calls) ↔ isPublished key log = true
  | _ => True

/-- The call recorded in `r` was carried out on the table of the calls before it. -/
def CarriedOut (log : List (Record A F)) (r : Record A F) : Prop :=
  ∃ e, r = r.call.record (routesOf log) e

section History

variable {log : List (Record A F)} {r : Record A F} {k : RtEntryKeys}

theorem isPublished_concat : isPublished k (log ++ [r]) = r.isPublished k (isPublished k log) := by
  rw [isPublished, List.foldl_append]
  rfl

theorem registrations_concat : registrations k (log ++ [r]) = r.registered k (registrations k log) := by
  rw [registrations, List.foldl_append]
  rfl

/-- A key has an entry exactly if it is published or somebody is registered for it. -/
theorem routesOf_isSome (h : EachAfter CarriedOut log) (k : RtEntryKeys) :
    (routesOf log k).isSome = true ↔ isPublished k log = true ∨ registrations k log ≠ [] := by
  induction log using List.reverseRecOn with
  | nil => simp [routesOf, isPublished, registrations]
  | append_singleton log r ih =>
      obtain ⟨hlog, e, hr⟩ := h.of_concat
      have ih := ih hlog
      rw [routesOf_concat, isPublished_concat, registrations_concat]
      obtain ⟨call, calls, deleted⟩ := r
      cases call with
      | register key keySize appCb subsId =>
          show ((routesOf log).register key ⟨appCb, subsId⟩ k).isSome = true ↔
            isPublished k log = true ∨
              (if key = k then registrations k log ++ [⟨appCb, subsId⟩] else registrations k log) ≠ []
          unfold Routes.register
          by_cases hk : key = k
          · simp [hk]
          · rw [Function.update_of_ne (Ne.symm hk), if_neg hk, ih]
      | addOrUpdate dest mask gwIp oif =>
          show ((routesOf log).addOrUpdate (rtKey dest mask) gwIp oif k).isSome = true ↔
            (if rtKey dest mask = k then true else isPublished k log) = true ∨ registrations k log ≠ []
          unfold Routes.addOrUpdate
          by_cases hk : rtKey dest mask = k
          · simp [hk]
          · rw [Function.update_of_ne (Ne.symm hk), if_neg hk, ih]
      | delete dest mask =>
          have hdeleted : deleted = (routesOf log (rtKey dest mask)).isSome := congrArg Record.deleted hr
          show ((routesOf log).delete (rtKey dest mask) k).isSome = true ↔
            (if rtKey dest mask = k then false else isPublished k log) = true ∨
              (if rtKey dest mask = k ∧ deleted = true then [] else registrations k log) ≠ []
          unfold Routes.delete
          by_cases hk : rtKey dest mask = k
          · rw [hk] at hdeleted ⊢
            rw [Function.update_self, if_pos rfl, hdeleted]
            by_cases hsome : (routesOf log k).isSome = true
            · simp [hsome]
            · -- no entry is deleted, since there is none, and so nobody is registered
              have hnone := mt ih.mpr hsome
              rw [not_or, not_not] at hnone
              simp [hsome, hnone.2]
          · rw [Function.update_of_ne (Ne.symm hk), if_neg hk, if_neg fun hc => hk hc.1, ih]

end History

variable [DecidableEq A] {s : RtSession A F}

/-- Every call of a run was carried out on the table of the calls before it. -/
theorem carriedOut (hs : (rtMachine A F).Reachable s) : EachAfter CarriedOut s.log := by
  refine hs.invariant_of (J := fun s => SessionOk s) (I := fun s => EachAfter CarriedOut s.log)
    (fun s hs => sessionOk hs) ?_ ?_
  · intro s hinit
    rw [hinit]
    exact .nil
  · intro s a s' hok hlog _ hstep
    obtain ⟨e, hlog', -, -⟩ := hok.represents.step hstep
    rw [hlog']
    exact hlog.concat ⟨e, rfl⟩

/-- **Who is announced.**  In every sequence of calls on a table, a registration is announced with
`NFC_ADD` as it should be, that is exactly if its key is published, if and only if the key is
published or nobody has registered for it since its entry was last deleted. -/
theorem rt_announced_iff (hs : (rtMachine A F).Reachable s) {before after : List (Record A F)}
    {r : Record A F} {key : RtEntryKeys} {keySize : Nat} {appCb : F} {subsId : UInt32}
    (hlog : s.log = before ++ r :: after) (hcall : r.call = .register key keySize appCb subsId) :
    AnnouncedRightly before r ↔ isPublished key before = true ∨ registrations key before = [] := by
  have hcarried := carriedOut hs
  obtain ⟨e, hr⟩ := hcarried before r after hlog
  have hbefore : EachAfter CarriedOut before := by
    intro before' r' after' heq
    exact hcarried before' r' (after' ++ r :: after) (by simp [hlog, heq])
  have hentry := routesOf_isSome hbefore key
  have hannounced : (∃ e, (⟨appCb, subsId⟩ : Registration F).call e .add ∈ r.calls) ↔
      (routesOf before key).isSome = true := by
    rw [hr, hcall]
    show (∃ e', _ ∈ (if (routesOf before key).isSome = true then _ else _)) ↔ _
    by_cases hsome : (routesOf before key).isSome = true
    · rw [if_pos hsome]
      exact iff_of_true ⟨e, List.mem_singleton_self _⟩ hsome
    · simp [hsome]
  unfold AnnouncedRightly
  rw [hcall]
  show ((∃ e, _ ∈ r.calls) ↔ _) ↔ _
  rw [hannounced, hentry]
  by_cases hpub : isPublished key before = true
  · simp [hpub]
  · simp [hpub]

section Traces

/-- `122.1/32` -/
def traceKey : RtEntryKeys := rtKey [49, 50, 50, 46, 49] 32

/-- The registration the traces end with, by a subscriber with callback 8. -/
def lastRegistration : RtCall Nat × Calloc Nat := (.register traceKey 17 8 2, ⟨11, 21, 31⟩)

/-- A subscriber is ahead of the publisher, the next one is not. -/
theorem rt_announced_iff_trace :
    ∃ (s : RtSession Nat Nat) (before : List (Record Nat Nat)) (r : Record Nat Nat),
      s.log = before ++ [r] ∧ (AnnouncedRightly before r ↔
        isPublished traceKey before = true ∨ registrations traceKey before = []) ∧
      isPublished traceKey before = true := by
  have hrun : ((rtMachine Nat Nat).exec ⟨rtInitRtTable, []⟩
      [(.register traceKey 17 7 1, ⟨10, 20, 30⟩),
        (.addOrUpdate [49, 50, 50, 46, 49] 32 (some [49]) (some [50]), ⟨10, 20, 30⟩)]).holds
      (fun s => isPublished traceKey s.log &&
        ((rtMachine Nat Nat).step s lastRegistration).holds fun _ => true) = true := by
    decide +kernel
  obtain ⟨s, hs, hp⟩ := Machine.exists_reachable_of_exec rfl hrun
  rw [Bool.and_eq_true] at hp
  obtain ⟨s', hstep, -⟩ := Outcome.holds_iff.mp hp.2
  obtain ⟨e, hlog, -⟩ := (sessionOk hs).represents.step hstep
  exact ⟨s', s.log, _, hlog, rt_announced_iff (.step hs trivial hstep) hlog rfl, hp.1⟩

/-- The second subscriber of a key that the publisher never added is told that the key was added. -/
theorem rt_announced_unpublished :
    ∃ s : RtSession Nat Nat, (rtMachine Nat Nat).Reachable s ∧
      ∃ before r, s.log = before ++ [r] ∧ ¬ AnnouncedRightly before r := by
  have hrun : ((rtMachine Nat Nat).exec ⟨rtInitRtTable, []⟩
      [(.register traceKey 17 7 1, ⟨10, 20, 30⟩)]).holds
      (fun s => !isPublished traceKey s.log && (routesOf s.log traceKey).isSome &&
        ((rtMachine Nat Nat).step s lastRegistration).holds fun _ => true) = true := by
    decide +kernel
  obtain ⟨s, hs, hp⟩ := Machine.exists_reachable_of_exec rfl hrun
  rw [Bool.and_eq_true, Bool.and_eq_true, Bool.not_eq_true'] at hp
  obtain ⟨⟨hpub, hsome⟩, hstep⟩ := hp
  obtain ⟨s', hstep, -⟩ := Outcome.holds_iff.mp hstep
  obtain ⟨e, hlog, -⟩ := (sessionOk hs).represents.step hstep
  refine ⟨s', .step hs trivial hstep, s.log, _, hlog, fun hright => ?_⟩
  have hadd : (⟨8, 2⟩ : Registration Nat).call e .add ∈
      (lastRegistration.1.record (routesOf s.log) e).calls := by
    show _ ∈ (if (routesOf s.log traceKey).isSome = true then _ else _)
    rw [if_pos hsome]
    exact List.mem_singleton_self _
  have htrue := hright.mp ⟨e, hadd⟩
  rw [hpub] at htrue
  cases htrue

end Traces

end NotifChain
end MultithreadingBible
