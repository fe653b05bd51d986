import MultithreadingBible.GlueThread.Represent

/-!
# Notification chains (`notif.c`)

A `notif_chain_t` is the head cell of an intrusive list whose members are `notif_chain_elem_t`
objects, one for each registration.  Chains and elements are allocated with `calloc` and released
with `free`; an operation is given the addresses `calloc` answers with, which must be unused.

The iterations run on fuel, the number of elements ever allocated, which no chain exceeds.

## Model

* `NfcMem` -- the glue cells, the chains and elements in use, the fuel
* `nfcCreateNewNotifChain`, `nfcRegisterNotifChain`, `nfcInvokeNotifChain`, `nfcDeleteAllNfce`
* `NfcOk` -- the chains hold exactly the registrations `S`
-/

namespace MultithreadingBible
namespace NotifChain

open GlueThread

/-- How an operation fails. -/
inductive Failure where
  /-- `calloc` does not answer with an address in use: there is no such run. -/
  | inUse
  | assertFailed
  /-- A null pointer, or an object that was freed, is read or written. -/
  | badAccess
  | outOfFuel
  deriving DecidableEq

inductive NfcOp where
  | unknown
  | sub
  | add
  | mod
  | del
  deriving DecidableEq

def maxNotifKeySize : Nat := 64

/-- `notif_chain_elem_t`.  `F` is the type of the callbacks. -/
structure NotifChainElem (F : Type*) where
  key : List UInt8
  keySize : Nat
  subsId : UInt32
  isKeySet : Bool
  appCb : F
  deriving DecidableEq

/-- A call of a subscriber's callback.  The object `arg` points at is recorded as it is then; its
size, which is the same in all calls, is left out. -/
structure NfcCall (F P : Type*) where
  appCb : F
  arg : P
  opCode : NfcOp
  subsId : UInt32
  deriving DecidableEq

/-- The glue cells: the head in a chain and the cell in an element. -/
inductive Cell (A : Type*) where
  | head (nfc : A)
  | glue (nfce : A)
  deriving DecidableEq

/-- The memory of the notification chains. -/
structure NfcMem (A F : Type*) where
  cells : Heap (Cell A)
  chains : A → Bool
  elems : A → Option (NotifChainElem F)
  fuel : Nat

variable {A F P : Type*}

/-- Nothing is allocated. -/
def NfcMem.empty : NfcMem A F := ⟨fun _ => Glthread.null, fun _ => false, fun _ => none, 0⟩

/-- `glthread_glue_to_notif_chain_elem`, and the element it leads to. -/
def NfcMem.elemAt (m : NfcMem A F) : Cell A → Except Failure (A × NotifChainElem F)
  | .head _ => .error .badAccess
  | .glue n =>
      match m.elems n with
      | none => .error .badAccess
      | some nfce => .ok (n, nfce)

/-- The test of `nfc_invoke_notif_chain` for one element.  `none` is the null key. -/
def NotifChainElem.matchesKey (nfce : NotifChainElem F) (key : Option (List UInt8))
    (keySize : Nat) : Bool :=
  if !(key.isSome && keySize != 0 && nfce.isKeySet && keySize == nfce.keySize) then true
  else (key.getD []).take keySize == nfce.key.take keySize

/-- `nfce->app_cb(arg, arg_size, nfc_op_code, nfce->subs_id)` -/
def NotifChainElem.call (nfce : NotifChainElem F) (arg : P) (opCode : NfcOp) : NfcCall F P :=
  ⟨nfce.appCb, arg, opCode, nfce.subsId⟩

variable [DecidableEq A]

/-- `nfc_create_new_notif_chain`, without a name. -/
def nfcCreateNewNotifChain (m : NfcMem A F) (nfc : A) : Except Failure (NfcMem A F) :=
  if m.chains nfc then .error .inUse
  else .ok { m with
    cells := initGlthread m.cells (.head nfc)
    chains := Function.update m.chains nfc true }

/-- `nfc_register_notif_chain`; `n` is the address of the copy of `nfce`. -/
def nfcRegisterNotifChain (m : NfcMem A F) (nfc : A) (nfce : NotifChainElem F) (n : A) :
    Except Failure (NfcMem A F) :=
  if (m.elems n).isSome then .error .inUse
  else if !m.chains nfc then .error .badAccess
  else .ok { m with
    cells := glthreadAddNext (initGlthread m.cells (.glue n)) (.head nfc) (.glue n)
    elems := Function.update m.elems n (some nfce)
    fuel := m.fuel + 1 }

/-- The loop of `nfc_delete_all_nfce`: the next cell is read before the current one is unlinked. -/
def nfcDeleteLoop : Nat → Option (Cell A) → NfcMem A F → Except Failure (NfcMem A F)
  | _, none, m => .ok m
  | 0, some _, _ => .error .outOfFuel
  | fuel + 1, some curr, m =>
      match m.elemAt curr with
      | .error f => .error f
      | .ok (n, _) =>
          nfcDeleteLoop fuel (m.cells curr).right { m with
            cells := removeGlthread m.cells curr
            elems := Function.update m.elems n none }

def nfcDeleteAllNfce (m : NfcMem A F) (nfc : A) : Except Failure (NfcMem A F) :=
  if !m.chains nfc then .error .badAccess
  else nfcDeleteLoop m.fuel (base m.cells (.head nfc)) m

/-- `free(nfc)` -/
def freeNotifChain (m : NfcMem A F) (nfc : A) : Except Failure (NfcMem A F) :=
  if !m.chains nfc then .error .badAccess
  else .ok { m with chains := Function.update m.chains nfc false }

omit [DecidableEq A] in
/-- `nfc_invoke_notif_chain`: the calls it makes, in order. -/
def nfcInvokeNotifChain (m : NfcMem A F) (nfc : A) (arg : P) (key : Option (List UInt8))
    (keySize : Nat) (opCode : NfcOp) : Except Failure (List (NfcCall F P)) :=
  if !m.chains nfc then .error .badAccess
  else if isGlthreadListEmpty m.cells (.head nfc) then .ok []
  else if maxNotifKeySize < keySize then .error .assertFailed
  else
    match iterateGlthread m.cells m.fuel (base m.cells (.head nfc)) with
    | none => .error .outOfFuel
    | some visited =>
        (visited.mapM m.elemAt).map fun nfces =>
          (nfces.filter fun p => p.2.matchesKey key keySize).map fun p => p.2.call arg opCode

/-- The chains hold the registrations `S`: each chain its elements, the most recent one first. -/
structure NfcOk (m : NfcMem A F) (S : A → List (A × NotifChainElem F)) : Prop where
  forest : Forest m.cells Cell.head (fun c => (S c).map fun p => Cell.glue p.1)
    (fun a => ∃ n, a = .glue n ∧ (m.elems n).isSome)
  elem : ∀ c, ∀ p ∈ S c, m.elems p.1 = some p.2
  unused : ∀ c, m.chains c = false → S c = []
  fuel : ∀ c, (S c).length ≤ m.fuel

namespace NfcOk

variable {m : NfcMem A F} {S : A → List (A × NotifChainElem F)}

omit [DecidableEq A] in
theorem empty : NfcOk (NfcMem.empty : NfcMem A F) fun _ => [] where
  forest :=
    { row := fun i => by simp [Row, NfcMem.empty, Glthread.null]
      nodup := by simp
      disjoint := by simp
      sub := by simp
      head := by simp
      inj := fun a b h => by simpa using h
      unlinked := fun _ _ _ => rfl }
  elem := by simp
  unused := by simp
  fuel := by simp

omit [DecidableEq A] in
/-- A cell that is not part of an element in use is in no chain. -/
theorem not_mem (h : NfcOk m S) {n : A} (hn : m.elems n = none) (c : A) :
    ∀ p ∈ S c, p.1 ≠ n := by
  intro p hp heq
  have helem := h.elem c p hp
  rw [heq, hn] at helem
  cases helem

/-- The head of an unused chain is a null cell. -/
theorem init_head (h : NfcOk m S) {c : A} (hc : m.chains c = false) :
    initGlthread m.cells (.head c) = m.cells := by
  have hrow := (h.forest.row c).1
  rw [h.unused c hc] at hrow
  have hnull : Glthread.null = m.cells (Cell.head c) := hrow.symm
  rw [initGlthread, hnull, Function.update_eq_self]

/-- A new chain is empty. -/
theorem create (h : NfcOk m S) {c : A} (hc : m.chains c = false) :
    ∃ m', nfcCreateNewNotifChain m c = .ok m' ∧ NfcOk m' S ∧
      m'.chains = Function.update m.chains c true ∧ m'.elems = m.elems := by
  refine ⟨_, if_neg (by simp [hc]), ?_, rfl, rfl⟩
  refine ⟨?_, h.elem, fun c' hc' => ?_, h.fuel⟩
  · show Forest (initGlthread m.cells (.head c)) _ _ _
    rw [h.init_head hc]
    exact h.forest
  · apply h.unused
    by_cases heq : c' = c
    · rw [heq]
      exact hc
    · simpa [Function.update_of_ne heq] using hc'

/-- A registration enters its chain at the front. -/
theorem register (h : NfcOk m S) {c n : A} (hc : m.chains c = true) (hn : m.elems n = none)
    (nfce : NotifChainElem F) :
    ∃ m', nfcRegisterNotifChain m c nfce n = .ok m' ∧
      NfcOk m' (Function.update S c ((n, nfce) :: S c)) ∧ m'.chains = m.chains := by
  refine ⟨_, (if_neg (by simp [hn])).trans (if_neg (by simp [hc])), ⟨?_, ?_, ?_, ?_⟩, rfl⟩
  · -- the new cell joins the cells in use, as a null cell, and is then linked in
    have hext := h.forest.extend (initGlthread m.cells (.glue n))
      (fun a => ∃ k, a = .glue k ∧ (Function.update m.elems n (some nfce) k).isSome)
      (fun i => by simp [initGlthread])
      (fun a ha => by
        obtain ⟨k, rfl, hk⟩ := ha
        have hkn : k ≠ n := by
          intro heq
          rw [heq, hn] at hk
          cases hk
        simp [initGlthread, hkn])
      (fun a ha => by
        obtain ⟨k, rfl, hk⟩ := ha
        refine ⟨k, rfl, ?_⟩
        by_cases hkn : k = n
        · simp [hkn]
        · simpa [Function.update_of_ne hkn] using hk)
      (fun i => by simp)
      (fun a ha hno => by
        obtain ⟨k, rfl, hk⟩ := ha
        by_cases hkn : k = n
        · simp [hkn, initGlthread]
        · rw [Function.update_of_ne hkn] at hk
          exact absurd ⟨k, rfl, hk⟩ hno)
    have hadd := hext.addFirst (i := c) (x := .glue n) ⟨n, rfl, by simp⟩ (fun j hj => by
      obtain ⟨p, hp, heq⟩ := List.mem_map.mp hj
      exact h.not_mem hn j p hp (by simpa using heq))
    have hS : (fun c' => (Function.update S c ((n, nfce) :: S c) c').map fun p => Cell.glue p.1) =
        Function.update (fun c => (S c).map fun p => Cell.glue p.1) c
          (Cell.glue n :: (S c).map fun p => Cell.glue p.1) := by
      ext1 c'
      by_cases hcc : c' = c
      · subst hcc
        simp
      · simp [Function.update_of_ne hcc]
    rw [hS]
    exact hadd
  · intro c' p hp
    show Function.update m.elems n (some nfce) p.1 = some p.2
    -- the older registrations keep their contents
    have hold : p ∈ S c' → Function.update m.elems n (some nfce) p.1 = some p.2 := by
      intro hp
      rw [Function.update_of_ne (h.not_mem hn c' p hp)]
      exact h.elem c' p hp
    by_cases hcc : c' = c
    · subst hcc
      rw [Function.update_self] at hp
      rcases List.mem_cons.mp hp with rfl | hp
      · simp
      · exact hold hp
    · rw [Function.update_of_ne hcc] at hp
      exact hold hp
  · intro c' hc'
    have hcc : c' ≠ c := by
      intro heq
      rw [heq] at hc'
      exact absurd (hc'.symm.trans hc) Bool.false_ne_true
    rw [Function.update_of_ne hcc]
    exact h.unused c' hc'
  · intro c'
    have hlen := h.fuel c'
    by_cases hcc : c' = c
    · subst hcc
      simpa using hlen
    · rw [Function.update_of_ne hcc]
      exact Nat.le_succ_of_le hlen

omit [DecidableEq A] in
/-- The elements behind the cells of a chain. -/
theorem mapM_elemAt (h : NfcOk m S) (c : A) :
    ((S c).map fun p => Cell.glue p.1).mapM m.elemAt = .ok (S c) := by
  have hall : ∀ p ∈ S c, m.elems p.1 = some p.2 := h.elem c
  generalize S c = ps at hall ⊢
  induction ps with
  | nil => rfl
  | cons p ps ih =>
      have hp := hall p (by simp)
      have hps := ih fun q hq => hall q (by simp [hq])
      simp only [List.map_cons, List.mapM_cons, hps]
      rw [NfcMem.elemAt, hp]
      rfl

omit [DecidableEq A] in
/-- A notification calls the callbacks of the chain's elements that match the key, once for each
element. -/
theorem invoke (h : NfcOk m S) {c : A} (hc : m.chains c = true) (arg : P)
    (key : Option (List UInt8)) {keySize : Nat} (hsize : keySize ≤ maxNotifKeySize)
    (opCode : NfcOp) :
    nfcInvokeNotifChain m c arg key keySize opCode =
      .ok (((S c).filter fun p => p.2.matchesKey key keySize).map fun p => p.2.call arg opCode) := by
  rw [nfcInvokeNotifChain, if_neg (by simp [hc])]
  by_cases hempty : isGlthreadListEmpty m.cells (.head c) = true
  · have hnil := (h.forest.isEmpty_head c).mp hempty
    rw [List.map_eq_nil_iff] at hnil
    rw [if_pos hempty, hnil]
    rfl
  · have hiter := h.forest.iterate (i := c) (show _ ≤ m.fuel by simpa using h.fuel c)
    rw [if_neg hempty, if_neg (by omega), hiter]
    show Except.map _ (((S c).map fun p => Cell.glue p.1).mapM m.elemAt) = _
    rw [h.mapM_elemAt c]
    rfl

omit [DecidableEq A] in
/-- Without a key every element of the chain is notified. -/
theorem invoke_all (h : NfcOk m S) {c : A} (hc : m.chains c = true) (arg : P) (opCode : NfcOp) :
    nfcInvokeNotifChain m c arg none 0 opCode = .ok ((S c).map fun p => p.2.call arg opCode) := by
  rw [h.invoke hc arg none (Nat.zero_le _) opCode]
  congr 2
  exact List.filter_eq_self.mpr fun p _ => by simp [NotifChainElem.matchesKey]

/-- One turn of the loop of `nfc_delete_all_nfce`. -/
theorem deleteFirst (h : NfcOk m S) {c : A} {p : A × NotifChainElem F}
    {ps : List (A × NotifChainElem F)} (hS : S c = p :: ps) :
    NfcOk { m with
        cells := removeGlthread m.cells (.glue p.1)
        elems := Function.update m.elems p.1 none } (Function.update S c ps) := by
  have hnd : ((S c).map fun p => Cell.glue p.1).Nodup := h.forest.nodup c
  rw [hS, List.map_cons, List.nodup_cons] at hnd
  -- no other element of a chain lives at the address that is freed
  have hne : ∀ c', ∀ q ∈ Function.update S c ps c', q.1 ≠ p.1 := by
    intro c' q hq heq
    by_cases hcc : c' = c
    · subst hcc
      rw [Function.update_self] at hq
      exact hnd.1 (List.mem_map.mpr ⟨q, hq, by rw [heq]⟩)
    · rw [Function.update_of_ne hcc] at hq
      refine h.forest.disjoint c' c hcc (.glue p.1) ?_ ?_
      · exact List.mem_map.mpr ⟨q, hq, by rw [heq]⟩
      · simp [hS]
  have hsub : ∀ c', ∀ q ∈ Function.update S c ps c', q ∈ S c' := by
    intro c' q hq
    by_cases hcc : c' = c
    · subst hcc
      rw [Function.update_self] at hq
      rw [hS]
      exact List.mem_cons_of_mem _ hq
    · rwa [Function.update_of_ne hcc] at hq
  refine ⟨?_, fun c' q hq => ?_, fun c' hc' => ?_, fun c' => ?_⟩
  · have hrem := h.forest.remove (i := c) (x := .glue p.1) (by simp [hS])
    have hL : (fun c' => (Function.update S c ps c').map fun p => Cell.glue p.1) =
        Function.update (fun c => (S c).map fun p => Cell.glue p.1) c
          (((S c).map fun p => Cell.glue p.1).erase (.glue p.1)) := by
      ext1 c'
      by_cases hcc : c' = c
      · subst hcc
        simp [hS]
      · simp [Function.update_of_ne hcc]
    rw [hL]
    refine hrem.restrict (fun a ha => ?_) fun i a ha => ?_
    · obtain ⟨k, rfl, hk⟩ := ha
      refine ⟨k, rfl, ?_⟩
      by_cases hkp : k = p.1
      · simp [hkp] at hk
      · simpa [Function.update_of_ne hkp] using hk
    · rw [← congrFun hL i] at ha
      obtain ⟨q, hq, rfl⟩ := List.mem_map.mp ha
      refine ⟨q.1, rfl, ?_⟩
      show (Function.update m.elems p.1 none q.1).isSome = true
      rw [Function.update_of_ne (hne i q hq), h.elem i q (hsub i q hq)]
      rfl
  · show Function.update m.elems p.1 none q.1 = some q.2
    rw [Function.update_of_ne (hne c' q hq)]
    exact h.elem c' q (hsub c' q hq)
  · have hnil := h.unused c' hc'
    by_cases hcc : c' = c
    · subst hcc
      rw [hS] at hnil
      cases hnil
    · rw [Function.update_of_ne hcc]
      exact hnil
  · have hlen := h.fuel c'
    by_cases hcc : c' = c
    · subst hcc
      rw [hS, List.length_cons] at hlen
      rw [Function.update_self]
      exact Nat.le_of_succ_le hlen
    · rw [Function.update_of_ne hcc]
      exact hlen

/-- The loop of `nfc_delete_all_nfce` empties the chain and leaves the others alone. -/
theorem deleteLoop {c : A} (ps : List (A × NotifChainElem F)) :
    ∀ {m : NfcMem A F} {S : A → List (A × NotifChainElem F)} {fuel : Nat}, NfcOk m S →
      S c = ps → ps.length ≤ fuel →
      ∃ m', nfcDeleteLoop fuel (base m.cells (.head c)) m = .ok m' ∧
        NfcOk m' (Function.update S c []) ∧ m'.chains = m.chains := by
  induction ps with
  | nil =>
      intro m S fuel h hS _
      have hbase : base m.cells (.head c) = none := by simp [h.forest.base_head, hS]
      refine ⟨m, ?_, ?_, rfl⟩
      · rw [hbase]
        cases fuel <;> rfl
      · rw [← hS, Function.update_eq_self]
        exact h
  | cons p ps ih =>
      intro m S fuel h hS hlen
      obtain ⟨k, rfl⟩ : ∃ k, fuel = k + 1 := ⟨fuel - 1, by simp at hlen; omega⟩
      have hbase : base m.cells (.head c) = some (.glue p.1) := by simp [h.forest.base_head, hS]
      have hright : (m.cells (.glue p.1)).right = (ps.map fun p => Cell.glue p.1).head? :=
        h.forest.right_of_split (i := c) (p := []) (by simp [hS])
      have helem : m.elems p.1 = some p.2 := h.elem c p (by simp [hS])
      have hone := h.deleteFirst hS
      obtain ⟨m', hloop, hok, hchains⟩ :=
        ih hone (by rw [Function.update_self]) (Nat.le_of_succ_le_succ hlen)
      refine ⟨m', ?_, by simpa using hok, hchains⟩
      -- the saved next cell is the first one of the list that is left
      have hnext := hone.forest.base_head c
      rw [Function.update_self] at hnext
      rw [hnext] at hloop
      rw [hbase]
      simp only [nfcDeleteLoop, NfcMem.elemAt, helem, hright]
      exact hloop

/-- `nfc_delete_all_nfce` -/
theorem deleteAll (h : NfcOk m S) {c : A} (hc : m.chains c = true) :
    ∃ m', nfcDeleteAllNfce m c = .ok m' ∧ NfcOk m' (Function.update S c []) ∧
      m'.chains = m.chains := by
  obtain ⟨m', hloop, hok, hchains⟩ := deleteLoop (S c) h rfl (h.fuel c)
  refine ⟨m', ?_, hok, hchains⟩
  rw [nfcDeleteAllNfce, if_neg (by simp [hc])]
  exact hloop

/-- An emptied chain is freed. -/
theorem free (h : NfcOk m S) {c : A} (hc : m.chains c = true) (hS : S c = []) :
    ∃ m', freeNotifChain m c = .ok m' ∧ NfcOk m' S ∧
      m'.chains = Function.update m.chains c false := by
  refine ⟨_, if_neg (by simp [hc]), ⟨h.forest, h.elem, ?_, h.fuel⟩, rfl⟩
  intro c' hc'
  by_cases hcc : c' = c
  · rw [hcc]
    exact hS
  · exact h.unused c' (by simpa [Function.update_of_ne hcc] using hc')

end NfcOk

end NotifChain
end MultithreadingBible
