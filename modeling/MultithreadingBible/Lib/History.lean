import Mathlib.Data.Fintype.Card
import Mathlib.Data.List.Nodup

/-!
# Histories of threads

A history is a list of events, oldest first; an event is something of some kind that happened to a
thread.  Where a property of a thread begins and ends with events, the threads that have it are those
whose last event is of the right kind.

* `lastKind` — the kind of a thread's last event.
* `standing` — the threads whose last event is of a given kind, in the order of these events.
* `standing_concat` / `standing_append_drop` — how they change as a history grows.
-/

namespace MultithreadingBible
namespace Lib

/-- Something of kind `kind` happened to `thread`. -/
structure Event (τ κ : Type*) where
  thread : τ
  kind : κ
  deriving DecidableEq

section History

variable {τ κ : Type*} [DecidableEq τ]

/-- The kind of the last event of `t`. -/
def lastKind (t : τ) : List (Event τ κ) → Option κ
  | [] => none
  | e :: log => (lastKind t log).or (if e.thread = t then some e.kind else none)

/-- The threads whose last event is of a kind in `p`, in the order of these events. -/
def standing (p : κ → Bool) : List (Event τ κ) → List τ
  | [] => []
  | e :: log =>
      if p e.kind && (lastKind e.thread log).isNone then e.thread :: standing p log
      else standing p log

variable {p q : κ → Bool} {log log' : List (Event τ κ)} {t u : τ} {k : κ}

theorem lastKind_append (t : τ) (log log' : List (Event τ κ)) :
    lastKind t (log ++ log') = (lastKind t log').or (lastKind t log) := by
  induction log with
  | nil => simp [lastKind]
  | cons e log ih => simp only [List.cons_append, lastKind, ih, Option.or_assoc]

/-- A new event is the last one of its thread. -/
@[simp] theorem lastKind_concat_self (log : List (Event τ κ)) (t : τ) (k : κ) :
    lastKind t (log ++ [⟨t, k⟩]) = some k := by
  rw [lastKind_append]
  simp [lastKind]

/-- A new event is not one of the other threads. -/
theorem lastKind_concat_of_ne (log : List (Event τ κ)) (k : κ) (hut : u ≠ t) :
    lastKind u (log ++ [⟨t, k⟩]) = lastKind u log := by
  rw [lastKind_append]
  simp [lastKind, hut.symm]

/-- An event that is the last one of its thread counts if its kind does. -/
theorem standing_cons_last {e : Event τ κ} (hlast : lastKind e.thread log = none) :
    standing p (e :: log) = if p e.kind = true then e.thread :: standing p log else standing p log := by
  simp only [standing, hlast, Option.isNone_none, Bool.and_true]

/-- An event does not count when its thread has a later one. -/
theorem standing_cons_later {e : Event τ κ} (hlater : lastKind e.thread log = some k) :
    standing p (e :: log) = standing p log := by
  simp [standing, hlater]

theorem lastKind_cons_last {e : Event τ κ} (hlast : lastKind e.thread log = none) :
    lastKind e.thread (e :: log) = some e.kind := by
  simp [lastKind, hlast]

theorem lastKind_cons_later (e : Event τ κ) (hlater : lastKind t log = some k) :
    lastKind t (e :: log) = some k := by
  simp [lastKind, hlater]

theorem lastKind_cons_of_ne {e : Event τ κ} (hne : t ≠ e.thread) :
    lastKind t (e :: log) = lastKind t log := by
  simp [lastKind, hne.symm]

/-- The threads that stand for `p` are those whose last event is of a kind in `p`. -/
theorem mem_standing : t ∈ standing p log ↔ ∃ k, lastKind t log = some k ∧ p k = true := by
  induction log with
  | nil => simp [standing, lastKind]
  | cons e log ih =>
      have hskip : t ≠ e.thread → (t ∈ standing p (e :: log) ↔ t ∈ standing p log) := by
        intro hne
        cases hlast : lastKind e.thread log with
        | none =>
            rw [standing_cons_last hlast]
            split
            · simp [hne]
            · rfl
        | some k => rw [standing_cons_later hlast]
      by_cases ht : t = e.thread
      · subst ht
        cases hlast : lastKind e.thread log with
        | none =>
            have hout : e.thread ∉ standing p log := by
              rw [ih, hlast]
              simp
            rw [standing_cons_last hlast, lastKind_cons_last hlast]
            split
            · next hp => simp [hp]
            · next hp => simp [hp, hout]
        | some k => rw [standing_cons_later hlast, lastKind_cons_later e hlast, ih, hlast]
      · rw [hskip ht, lastKind_cons_of_ne ht, ih]

/-- A thread without events stands for nothing. -/
theorem not_mem_standing (h : lastKind t log = none) : t ∉ standing p log := by
  rw [mem_standing, h]
  simp

theorem nodup_standing (p : κ → Bool) (log : List (Event τ κ)) : (standing p log).Nodup := by
  induction log with
  | nil => exact List.nodup_nil
  | cons e log ih =>
      cases hlast : lastKind e.thread log with
      | none =>
          rw [standing_cons_last hlast]
          split
          · exact List.nodup_cons.mpr ⟨not_mem_standing hlast, ih⟩
          · exact ih
      | some k => rwa [standing_cons_later hlast]

/-- An event ends what its thread stood for before, and may be the begin of the next. -/
theorem standing_concat (p : κ → Bool) (log : List (Event τ κ)) (t : τ) (k : κ) :
    standing p (log ++ [⟨t, k⟩]) =
      (standing p log).erase t ++ (if p k = true then [t] else []) := by
  induction log with
  | nil => simp [standing, lastKind]
  | cons e log ih =>
      rw [List.cons_append]
      by_cases ht : e.thread = t
      · -- the older event of `t` does not count any more
        subst ht
        rw [standing_cons_later (lastKind_concat_self log e.thread k), ih]
        cases hlast : lastKind e.thread log with
        | none =>
            have hout := not_mem_standing (p := p) hlast
            have hdrop : (standing p (e :: log)).erase e.thread =
                (standing p log).erase e.thread := by
              rw [standing_cons_last hlast]
              by_cases hp : p e.kind = true
              · rw [if_pos hp, List.erase_cons_head, List.erase_of_not_mem hout]
              · rw [if_neg hp]
            rw [hdrop]
        | some k' => rw [standing_cons_later hlast]
      · have hkeep := lastKind_concat_of_ne log k ht
        cases hlast : lastKind e.thread log with
        | none =>
            rw [standing_cons_last (hkeep.trans hlast), standing_cons_last hlast, ih]
            split
            · rw [List.erase_cons_tail (by simpa using ht)]
              rfl
            · rfl
        | some k' => rw [standing_cons_later (hkeep.trans hlast), standing_cons_later hlast, ih]

/-- Events that are in `p` put their thread at the end. -/
theorem standing_concat_of_mem (hk : p k = true) :
    standing p (log ++ [⟨t, k⟩]) = (standing p log).erase t ++ [t] := by
  rw [standing_concat, if_pos hk]

/-- Events that are not in `p` take their thread out. -/
theorem standing_concat_of_not_mem (hk : p k = false) :
    standing p (log ++ [⟨t, k⟩]) = (standing p log).erase t := by
  rw [standing_concat, hk]
  simp

/-- When the first threads that stand get an event that ends it, the rest is left in order. -/
theorem standing_append_drop (hk : p k = false) {ts rest : List τ}
    (hts : standing p log = ts ++ rest) :
    standing p (log ++ ts.map fun t => ⟨t, k⟩) = rest := by
  induction ts generalizing log with
  | nil => simpa using hts
  | cons t ts ih =>
      have hnext : standing p (log ++ [⟨t, k⟩]) = ts ++ rest := by
        rw [standing_concat_of_not_mem hk, hts, List.cons_append, List.erase_cons_head]
      have hrest := ih hnext
      rwa [List.append_assoc] at hrest

/-- The same thing happens to several threads. -/
theorem lastKind_append_map (log : List (Event τ κ)) (k : κ) (ts : List τ) (t : τ) :
    lastKind t (log ++ ts.map fun u => ⟨u, k⟩) = if t ∈ ts then some k else lastKind t log := by
  induction ts generalizing log with
  | nil => simp
  | cons u ts ih =>
      have hcons : log ++ (u :: ts).map (fun u => (⟨u, k⟩ : Event τ κ)) =
          log ++ [⟨u, k⟩] ++ ts.map fun u => ⟨u, k⟩ := by
        simp
      rw [hcons, ih]
      by_cases htu : t = u
      · subst htu
        simp
      · rw [lastKind_concat_of_ne log k htu]
        simp [htu]

/-- When each of some threads has one event of a kind in `p`, they stand in this order. -/
theorem standing_map (hk : p k = true) {ts : List τ} (hnd : ts.Nodup) :
    standing p (ts.map fun t => ⟨t, k⟩) = ts := by
  induction ts using List.reverseRecOn with
  | nil => rfl
  | append_singleton ts t ih =>
      have hsplit := List.nodup_append.mp hnd
      have hout : t ∉ ts := fun hmem => hsplit.2.2 t hmem t (List.mem_singleton_self t) rfl
      rw [List.map_append]
      show standing p (_ ++ [⟨t, k⟩]) = _
      rw [standing_concat_of_mem hk, ih hsplit.1, List.erase_of_not_mem hout]

section Counting

variable [Fintype τ]

theorem toFinset_standing (p : κ → Bool) (log : List (Event τ κ)) :
    (standing p log).toFinset =
      Finset.univ.filter fun t => (lastKind t log).any p = true := by
  ext t
  rw [List.mem_toFinset, mem_standing, Finset.mem_filter]
  cases lastKind t log with
  | none => simp
  | some k => simp

/-- Two lists of threads that stand for different things make up those that stand for either. -/
theorem length_standing_add (p q : κ → Bool) (hpq : ∀ k, ¬ (p k = true ∧ q k = true))
    (log : List (Event τ κ)) :
    (standing p log).length + (standing q log).length =
      (Finset.univ.filter fun t => (lastKind t log).any (fun k => p k || q k) = true).card := by
  rw [← List.toFinset_card_of_nodup (nodup_standing p log),
    ← List.toFinset_card_of_nodup (nodup_standing q log), toFinset_standing, toFinset_standing,
    ← Finset.card_union_of_disjoint]
  · congr 1
    ext t
    rw [Finset.mem_union, Finset.mem_filter, Finset.mem_filter, Finset.mem_filter]
    cases lastKind t log with
    | none => simp
    | some k => simp
  · rw [Finset.disjoint_filter]
    intro t _ hp hq
    cases hlast : lastKind t log with
    | none => simp [hlast] at hp
    | some k =>
        rw [hlast] at hp hq
        exact hpq k ⟨hp, hq⟩

end Counting

end History

end Lib
end MultithreadingBible
