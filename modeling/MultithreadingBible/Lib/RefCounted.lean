import Mathlib.Data.Nat.Basic

/-!
# The life of a reference-counted object

An object is born, inserted into a container, counted there once, used by threads, removed from the
container, and destroyed by whoever gives up the last reference.  The container's own reference is handed
to the thread that removes the object, which takes one of its own before it gives that one up.

* `Role` — what a thread is to an object.
* `Phase` — how the reference count, the container and the threads fit together.
* one lemma for each thing a thread can do: `Phase.alloc`, …, `Phase.destroy`.
-/

namespace MultithreadingBible
namespace Lib
namespace RefCounted

/-- What a thread is to an object. -/
inductive Role where
  /-- It uses the object, and is counted. -/
  | user
  /-- It removed the object, and does not use it yet. -/
  | removed
  /-- It removed the object, and uses it. -/
  | dropping
  /-- It has made the object. -/
  | born
  /-- It has inserted the object, which is not counted yet. -/
  | inserted
  /-- It gave up the last reference. -/
  | dying
  deriving DecidableEq

/-- One thread changes its role from `a` to `b`. -/
def Shift (n : Role → Nat) (a b : Option Role) (n' : Role → Nat) : Prop :=
  ∀ r, n' r + (if a = some r then 1 else 0) = n r + (if b = some r then 1 else 0)

/-- At most one thread knows the object. -/
def Only (n : Role → Nat) (a : Option Role) : Prop := ∀ r, n r = if a = some r then 1 else 0

/-- How many threads have which role, whether the object is in the container (`1`) or not (`0`), and its
reference count, if it is allocated. -/
inductive Phase (n : Role → Nat) (listed : Nat) : Option Nat → Prop
  | absent (hn : Only n none) (hlisted : listed = 0) : Phase n listed none
  | born (hn : Only n (some .born)) (hlisted : listed = 0) : Phase n listed (some 0)
  | inserted (hn : Only n (some .inserted)) (hlisted : listed = 1) : Phase n listed (some 0)
  | live {c : Nat} (hcount : c = listed + n .user + n .removed + 2 * n .dropping) (hpos : 0 < c)
      (hborn : n .born = 0) (hinserted : n .inserted = 0) (hdying : n .dying = 0) :
      Phase n listed (some c)
  | dying (hn : Only n (some .dying)) (hlisted : listed = 0) : Phase n listed (some 0)

/-- The references of a thread with this role. -/
def refs : Option Role → Nat
  | some .user => 1
  | some .removed => 1
  | some .dropping => 2
  | _ => 0

variable {n n' : Role → Nat} {listed c : Nat} {count : Option Nat} {a b : Option Role}

theorem Only.shift (h : Only n a) (hshift : Shift n a b n') : Only n' b := by
  intro r
  have hr := hshift r
  rw [h r] at hr
  omega

/-- A thread with a role is counted. -/
theorem Shift.pos (hshift : Shift n a b n') {r : Role} (ha : a = some r) (hb : b ≠ some r) :
    0 < n r := by
  have hr := hshift r
  rw [if_pos ha, if_neg hb] at hr
  omega

/-- Nobody changes a role. -/
theorem Shift.eq (hshift : Shift n a a n') : n' = n := by
  ext r
  have hr := hshift r
  omega

/-- An object that somebody uses or has removed is live. -/
theorem Phase.live_of_pos (h : Phase n listed count)
    (hpos : 0 < n .user ∨ 0 < n .removed ∨ 0 < n .dropping) :
    ∃ c, count = some c ∧ c = listed + n .user + n .removed + 2 * n .dropping ∧
      n .born = 0 ∧ n .inserted = 0 ∧ n .dying = 0 := by
  cases h with
  | @live c hcount _ hborn hinserted hdying =>
      exact ⟨c, rfl, hcount, hborn, hinserted, hdying⟩
  | absent hn _ =>
      simp [hn .user, hn .removed, hn .dropping] at hpos
  | born hn _ =>
      simp [hn .user, hn .removed, hn .dropping] at hpos
  | inserted hn _ =>
      simp [hn .user, hn .removed, hn .dropping] at hpos
  | dying hn _ =>
      simp [hn .user, hn .removed, hn .dropping] at hpos

/-- An object in the container is live, unless it is just being inserted. -/
theorem Phase.live_of_listed (h : Phase n 1 count) (hno : n .inserted = 0) :
    ∃ c, count = some c ∧ c = 1 + n .user + n .removed + 2 * n .dropping ∧
      n .born = 0 ∧ n .dying = 0 := by
  cases h with
  | @live c hcount _ hborn _ hdying => exact ⟨c, rfl, hcount, hborn, hdying⟩
  | absent _ hlisted => cases hlisted
  | born _ hlisted => cases hlisted
  | dying _ hlisted => cases hlisted
  | inserted hn _ => simp [hn .inserted] at hno

/-- Objects in the container are allocated. -/
theorem Phase.isSome_of_listed (h : Phase n 1 count) : count.isSome = true := by
  cases h with
  | absent _ hlisted => cases hlisted
  | _ => rfl

/-- Objects that threads know are allocated. -/
theorem Phase.isSome_of_pos (h : Phase n listed count) {r : Role} (hpos : 0 < n r) :
    count.isSome = true := by
  cases h with
  | absent hn _ => simp [hn r] at hpos
  | _ => rfl

theorem refs_eq (a : Option Role) :
    refs a = (if a = some .user then 1 else 0) + (if a = some .removed then 1 else 0) +
      2 * if a = some .dropping then 1 else 0 := by
  rcases a with - | (_ | _ | _ | _ | _ | _) <;> rfl

/-- The references to a live object change by those of one thread. -/
theorem Shift.refs (hshift : Shift n a b n') :
    n' .user + n' .removed + 2 * n' .dropping + refs a =
      n .user + n .removed + 2 * n .dropping + refs b := by
  have huser := hshift .user
  have hremoved := hshift .removed
  have hdropping := hshift .dropping
  rw [refs_eq, refs_eq]
  omega

/-- A thread takes or gives up references to a live object. -/
theorem Phase.live_shift {c' listed' : Nat} (hshift : Shift n a b n')
    (hcount : c = listed + n .user + n .removed + 2 * n .dropping)
    (hother : n .born = 0 ∧ n .inserted = 0 ∧ n .dying = 0)
    (hb : b ≠ some .born ∧ b ≠ some .inserted ∧ b ≠ some .dying)
    (hc' : c' + listed + RefCounted.refs a = c + listed' + RefCounted.refs b) (hpos : 0 < c') :
    Phase n' listed' (some c') := by
  obtain ⟨hborn, hinserted, hdying⟩ := hother
  have hrefs := hshift.refs
  have hborn' := hshift .born
  have hinserted' := hshift .inserted
  have hdying' := hshift .dying
  rw [if_neg hb.1] at hborn'
  rw [if_neg hb.2.1] at hinserted'
  rw [if_neg hb.2.2] at hdying'
  exact .live (by omega) hpos (by omega) (by omega) (by omega)

/-- A new object. -/
theorem Phase.alloc (h : Phase n listed none) (hshift : Shift n none (some .born) n') :
    Phase n' listed (some 0) := by
  cases h with
  | absent hn hlisted => exact .born (hn.shift hshift) hlisted

/-- What a new object is like. -/
theorem Phase.of_born (h : Phase n listed count) (hpos : 0 < n .born) :
    Only n (some .born) ∧ listed = 0 ∧ count = some 0 := by
  cases h with
  | born hn hlisted => exact ⟨hn, hlisted, rfl⟩
  | live _ _ hborn _ _ => omega
  | absent hn _ => simp [hn .born] at hpos
  | inserted hn _ => simp [hn .born] at hpos
  | dying hn _ => simp [hn .born] at hpos

/-- A new object is inserted. -/
theorem Phase.insert (h : Phase n listed count)
    (hshift : Shift n (some .born) (some .inserted) n') : Phase n' 1 count := by
  obtain ⟨hn, -, rfl⟩ := h.of_born (hshift.pos rfl (by simp))
  exact .inserted (hn.shift hshift) rfl

/-- What an object is like that was just inserted. -/
theorem Phase.of_inserted (h : Phase n listed count) (hpos : 0 < n .inserted) :
    Only n (some .inserted) ∧ listed = 1 ∧ count = some 0 := by
  cases h with
  | inserted hn hlisted => exact ⟨hn, hlisted, rfl⟩
  | live _ _ _ hinserted _ => omega
  | absent hn _ => simp [hn .inserted] at hpos
  | born hn _ => simp [hn .inserted] at hpos
  | dying hn _ => simp [hn .inserted] at hpos

/-- The container counts itself. -/
theorem Phase.countIn (h : Phase n listed count) (hshift : Shift n (some .inserted) none n') :
    Phase n' listed (some 1) := by
  obtain ⟨hn, hlisted, -⟩ := h.of_inserted (hshift.pos rfl (by simp))
  have hn' := hn.shift hshift
  exact .live (by simp [hn' .user, hn' .removed, hn' .dropping, hlisted]) (by omega)
    (hn' .born) (hn' .inserted) (hn' .dying)

/-- A thread takes a reference to an object in the container. -/
theorem Phase.use (h : Phase n 1 (some c)) (hno : n .inserted = 0)
    (hshift : Shift n none (some .user) n') : Phase n' 1 (some (c + 1)) := by
  obtain ⟨c', hc, hcount, hborn, hdying⟩ := h.live_of_listed hno
  cases hc
  exact .live_shift hshift hcount ⟨hborn, hno, hdying⟩ (by simp) (by simp [refs]) (by omega)

/-- A thread gives up its reference, which is not the last one. -/
theorem Phase.drop (h : Phase n listed (some (c + 1))) (hc : c ≠ 0)
    (hshift : Shift n (some .user) none n') : Phase n' listed (some c) := by
  obtain ⟨c', hc', hcount, hborn, hinserted, hdying⟩ :=
    h.live_of_pos (.inl (hshift.pos rfl (by simp)))
  cases hc'
  exact .live_shift hshift hcount ⟨hborn, hinserted, hdying⟩ (by simp) (by simp [refs]; omega) (by omega)

/-- A thread gives up the last reference. -/
theorem Phase.dropLast (h : Phase n listed (some 1))
    (hshift : Shift n (some .user) (some .dying) n') : Phase n' listed (some 0) := by
  have hpos := hshift.pos rfl (by simp)
  obtain ⟨c', hc', hcount, hborn, hinserted, hdying⟩ := h.live_of_pos (.inl hpos)
  cases hc'
  have honly : Only n (some .user) := by
    intro r
    cases r <;> simp <;> omega
  exact .dying (honly.shift hshift) (by omega)

/-- The container gives its reference to the thread that removes the object. -/
theorem Phase.remove (h : Phase n 1 count) (hno : n .inserted = 0)
    (hshift : Shift n none (some .removed) n') : Phase n' 0 count := by
  obtain ⟨c, rfl, hcount, hborn, hdying⟩ := h.live_of_listed hno
  exact .live_shift hshift hcount ⟨hborn, hno, hdying⟩ (by simp) (by simp [refs]) (by omega)

/-- It takes a reference of its own, -/
theorem Phase.useRemoved (h : Phase n listed (some c))
    (hshift : Shift n (some .removed) (some .dropping) n') : Phase n' listed (some (c + 1)) := by
  obtain ⟨c', hc', hcount, hborn, hinserted, hdying⟩ :=
    h.live_of_pos (.inr (.inl (hshift.pos rfl (by simp))))
  cases hc'
  exact .live_shift hshift hcount ⟨hborn, hinserted, hdying⟩ (by simp) (by simp [refs]; omega) (by omega)

/-- and gives up that of the container, which is not the last one. -/
theorem Phase.countOut (h : Phase n listed (some c))
    (hshift : Shift n (some .dropping) (some .user) n') :
    2 ≤ c ∧ Phase n' listed (some (c - 1)) := by
  have hpos := hshift.pos rfl (by simp)
  obtain ⟨c', hc', hcount, hborn, hinserted, hdying⟩ := h.live_of_pos (.inr (.inr hpos))
  cases hc'
  exact ⟨by omega, .live_shift hshift hcount ⟨hborn, hinserted, hdying⟩ (by simp)
    (by simp [refs]; omega) (by omega)⟩

/-- What an object is like whose last reference was given up. -/
theorem Phase.of_dying (h : Phase n listed count) (hpos : 0 < n .dying) :
    Only n (some .dying) ∧ listed = 0 ∧ count = some 0 := by
  cases h with
  | dying hn hlisted => exact ⟨hn, hlisted, rfl⟩
  | live _ _ _ _ hdying => omega
  | absent hn _ => simp [hn .dying] at hpos
  | born hn _ => simp [hn .dying] at hpos
  | inserted hn _ => simp [hn .dying] at hpos

/-- The object is freed. -/
theorem Phase.destroy (h : Phase n listed count) (hshift : Shift n (some .dying) none n') :
    Phase n' listed none := by
  obtain ⟨hn, hlisted, -⟩ := h.of_dying (hshift.pos rfl (by simp))
  exact .absent (hn.shift hshift) hlisted

/-- The count is right but while the object is inserted, and removed. -/
theorem Phase.count_eq (h : Phase n listed (some c)) :
    c + n .inserted =
      listed + (n .user + n .dropping) + (n .removed + n .dropping) := by
  cases h with
  | live hcount _ _ hinserted _ => omega
  | born hn hlisted =>
      simp [hn .inserted, hn .user, hn .dropping, hn .removed, hlisted]
  | inserted hn hlisted =>
      simp [hn .inserted, hn .user, hn .dropping, hn .removed, hlisted]
  | dying hn hlisted =>
      simp [hn .inserted, hn .user, hn .dropping, hn .removed, hlisted]

/-- An allocated object is in the container, or some thread knows it. -/
theorem Phase.owner (h : Phase n listed (some c)) : listed ≠ 0 ∨ ∃ r, 0 < n r := by
  cases h with
  | live hcount hpos _ _ _ =>
      by_cases hlisted : listed = 0
      · apply Or.inr
        by_cases huser : 0 < n .user
        · exact ⟨.user, huser⟩
        · by_cases hremoved : 0 < n .removed
          · exact ⟨.removed, hremoved⟩
          · exact ⟨.dropping, by omega⟩
      · exact .inl hlisted
  | born hn _ => exact .inr ⟨.born, by simp [hn .born]⟩
  | inserted hn _ => exact .inr ⟨.inserted, by simp [hn .inserted]⟩
  | dying hn _ => exact .inr ⟨.dying, by simp [hn .dying]⟩

/-- Nobody knows an object that is not allocated. -/
theorem Phase.of_none (h : Phase n listed none) : Only n none ∧ listed = 0 := by
  cases h with
  | absent hn hlisted => exact ⟨hn, hlisted⟩

end RefCounted
end Lib
end MultithreadingBible
