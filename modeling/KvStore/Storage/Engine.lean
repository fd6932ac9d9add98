/-
KvStore.Storage.Engine — `StorageEngine` of `storage/storage_engine.cpp`:
the in-memory map with its WAL, the write paths under the
monotonic-timestamp rule, `BulkPut`, `RemoveKeys` and `Recover`.

The map is a `Finmap`: `std::unordered_map` has unique keys and no
order that any modelled caller reads, so two maps are equal when they agree
on every key. The reader-writer lock gives each
call's map step atomicity; that atomicity is what a function of the state
says, and `Storage.Interleaving` splits a call into its two locked steps.

Translation notes. `Put` and `ConditionalPut` have the same body in the
source (append a PUT record of key, value and timestamp, then
`if (it != end && it->second.timestamp >= ts) return false;` and store),
differing only in how the `VersionedValue` arrives; `put` is therefore
`conditionalPut` of `{value, ts, origin_node}`. `BulkPut` applies the same
rule, written the other way round (`it == end || ts < vv.timestamp`), and
appends nothing to the WAL. `Recover` applies puts by that rule but
deletes by `<=`, not the live path's `<`; `recoverEntry` keeps its own
body for that reason.

## Recovery and the log

Both paths apply the same records under the monotonic-timestamp rule
except for one comparison: the live `Delete` removes an entry only when it
is strictly older (`it->second.timestamp >= ts` is stale), while
`Recover` removes it when it is not newer (`it->second.timestamp <=
entry.timestamp`). A delete whose timestamp equals the stored entry's is
therefore a no-op live and an erasure after a restart
(`recover_tie_delete_diverges`). `BulkPut` writes nothing to the log,
although its own comment says the log is written; what it stores is not in
the log at all (`bulkPut_not_logged`).

## LWW on one key

§4 reduces every operation to what it does to the one entry of its key
(`KeyOp.step`). Its results: the put with the largest timestamp wins
whatever the order, once it has been applied (`lww_largest_put_wins`), and
a delete newer than every put removes the key when no put follows it
(`lww_last_delete_clears`). Nothing stronger holds: with no tombstone, a
delete that reaches the engine before an older put is forgotten.
-/
import KvStore.Storage.Wal

namespace KvStore.Storage

/-! ## 1. The map and the two rules -/

/-- `std::unordered_map<std::string, VersionedValue>`. -/
abbrev KVMap := Finmap (fun _ : Bytes => VersionedValue)

/-- The monotonic-timestamp rule for a put of timestamp `ts`, on the entry
the key has: accepted iff there is none, or it is strictly older. Ties are
stale. -/
def acceptsPut : Option VersionedValue → Timestamp → Bool
  | none, _ => true
  | some vv, ts => vv.timestamp < ts

/-- The rule for a delete of timestamp `ts`: accepted iff there is an entry
and it is strictly older. -/
def acceptsDelete : Option VersionedValue → Timestamp → Bool
  | none, _ => false
  | some vv, ts => vv.timestamp < ts

/-- The map after a put under the rule. -/
def applyPut (m : KVMap) (key : Bytes) (vv : VersionedValue) : KVMap :=
  if acceptsPut (m.lookup key) vv.timestamp then m.insert key vv else m

/-- The map after a delete under the rule. -/
def applyDelete (m : KVMap) (key : Bytes) (ts : Timestamp) : KVMap :=
  if acceptsDelete (m.lookup key) ts then m.erase key else m

theorem lookup_applyPut (m : KVMap) (key k : Bytes) (vv : VersionedValue) :
    (applyPut m key vv).lookup k =
      if k = key ∧ acceptsPut (m.lookup key) vv.timestamp then some vv else m.lookup k := by
  unfold applyPut
  by_cases hk : k = key
  · subst hk; split <;> simp_all [Finmap.lookup_insert]
  · split <;> simp_all [Finmap.lookup_insert_of_ne]

theorem lookup_applyDelete (m : KVMap) (key k : Bytes) (ts : Timestamp) :
    (applyDelete m key ts).lookup k =
      if k = key ∧ acceptsDelete (m.lookup key) ts then none else m.lookup k := by
  unfold applyDelete
  by_cases hk : k = key
  · subst hk; split <;> simp_all [Finmap.lookup_erase]
  · split <;> simp_all [Finmap.lookup_erase_ne]

/-! ## 2. The engine -/

/-- `StorageEngine`: the map and the WAL it owns. -/
structure StorageEngine where
  store : KVMap
  wal : WriteAheadLog

namespace StorageEngine

/-- The constructor on a WAL file: an empty map, the file as it is. -/
def ofFile (file : Bytes) : StorageEngine := ⟨∅, ⟨file⟩⟩

/-- `StorageEngine::ConditionalPut`: append a PUT record, then the
check-and-update. Returns whether the map took the value. -/
def conditionalPut (s : StorageEngine) (key : Bytes) (vv : VersionedValue) :
    Bool × StorageEngine :=
  (acceptsPut (s.store.lookup key) vv.timestamp,
    ⟨applyPut s.store key vv, s.wal.append .put key vv.value vv.timestamp⟩)

/-- `StorageEngine::Put`. -/
def put (s : StorageEngine) (key value : Bytes) (ts : Timestamp) (originNode : Bytes) :
    Bool × StorageEngine :=
  s.conditionalPut key ⟨value, ts, originNode⟩

/-- `StorageEngine::Delete`: append a DELETE record with an empty value,
then remove the entry if it is strictly older. -/
def delete (s : StorageEngine) (key : Bytes) (ts : Timestamp) : Bool × StorageEngine :=
  (acceptsDelete (s.store.lookup key) ts, ⟨applyDelete s.store key ts, s.wal.append .deleteOp key [] ts⟩)

/-- `StorageEngine::Get`. -/
def get (s : StorageEngine) (key : Bytes) : Option VersionedValue := s.store.lookup key

/-- `StorageEngine::BulkPut`: each entry under the put rule; no WAL record. -/
def bulkPut (s : StorageEngine) (entries : List (Bytes × VersionedValue)) : StorageEngine :=
  { s with store := entries.foldl (fun m e => applyPut m e.1 e.2) s.store }

/-- `StorageEngine::RemoveKeys`: unconditional erasure. -/
def removeKeys (s : StorageEngine) (keys : List Bytes) : StorageEngine :=
  { s with store := keys.foldl (fun m k => m.erase k) s.store }

/-- `StorageEngine::Size`. -/
def size (s : StorageEngine) : Nat := s.store.keys.card

/-- One WAL entry as `Recover` applies it: PUT and INTERNAL_PUT by the put
rule with an empty origin, DELETE and INTERNAL_DELETE when the entry is not
newer (`<=`), any other op byte ignored. -/
def recoverEntry (m : KVMap) (entry : WALEntry) : KVMap :=
  if entry.op = .put ∨ entry.op = .internalPut then
    applyPut m entry.key ⟨entry.value, entry.timestamp, []⟩
  else if entry.op = .deleteOp ∨ entry.op = .internalDelete then
    match m.lookup entry.key with
    | some vv => if vv.timestamp ≤ entry.timestamp then m.erase entry.key else m
    | none => m
  else m

/-- `StorageEngine::Recover`: replay the WAL and apply its entries in file
order. -/
def recover (s : StorageEngine) : StorageEngine :=
  { s with store := s.wal.replay.foldl recoverEntry s.store }

@[simp] theorem conditionalPut_store (s : StorageEngine) (key : Bytes) (vv : VersionedValue) :
    (s.conditionalPut key vv).2.store = applyPut s.store key vv := rfl

@[simp] theorem conditionalPut_wal (s : StorageEngine) (key : Bytes) (vv : VersionedValue) :
    (s.conditionalPut key vv).2.wal = s.wal.append .put key vv.value vv.timestamp := rfl

@[simp] theorem delete_store (s : StorageEngine) (key : Bytes) (ts : Timestamp) :
    (s.delete key ts).2.store = applyDelete s.store key ts := rfl

@[simp] theorem delete_wal (s : StorageEngine) (key : Bytes) (ts : Timestamp) :
    (s.delete key ts).2.wal = s.wal.append .deleteOp key [] ts := rfl

@[simp] theorem bulkPut_wal (s : StorageEngine) (entries : List (Bytes × VersionedValue)) :
    (s.bulkPut entries).wal = s.wal := rfl

@[simp] theorem get_ofFile (file key : Bytes) : (StorageEngine.ofFile file).get key = none := rfl

@[simp] theorem ofFile_wal (file : Bytes) : (StorageEngine.ofFile file).wal = ⟨file⟩ := rfl

end StorageEngine

/-! ### Where `Recover` and `BulkPut` leave the rule -/

/-- The live run of the failing input: `Put("k","v",100,"n1")`, then
`Delete("k",100)`, on a fresh engine. -/
def tieDeleteRun : StorageEngine :=
  (((StorageEngine.ofFile []).put (Bytes.ofString "k") (Bytes.ofString "v") 100
    (Bytes.ofString "n1")).2.delete (Bytes.ofString "k") 100).2

/-- The live path keeps an entry that a delete of equal timestamp meets;
`Recover`, on the log those two calls wrote, erases it. -/
theorem recover_tie_delete_diverges :
    tieDeleteRun.get (Bytes.ofString "k") = some ⟨Bytes.ofString "v", 100, Bytes.ofString "n1"⟩ ∧
      (StorageEngine.ofFile tieDeleteRun.wal.file).recover.get (Bytes.ofString "k") = none := by
  have hlog : tieDeleteRun.wal.file =
      encodeLog [⟨.put, 100, Bytes.ofString "k", Bytes.ofString "v"⟩,
        ⟨.deleteOp, 100, Bytes.ofString "k", []⟩] := by
    simp [tieDeleteRun, StorageEngine.put, StorageEngine.conditionalPut, StorageEngine.delete,
      WriteAheadLog.append, StorageEngine.ofFile, encodeLog, encodeEntry]
  refine ⟨by decide, ?_⟩
  show (List.foldl StorageEngine.recoverEntry ∅ (replay _)).lookup _ = none
  rw [hlog, StorageEngine.ofFile_wal, replay_encodeLog _ (by decide)]
  decide

/-- The failing input of `BulkPut`: one entry on a fresh engine. -/
def bulkPutRun : StorageEngine :=
  (StorageEngine.ofFile []).bulkPut [(Bytes.ofString "k", ⟨Bytes.ofString "v", 1, Bytes.ofString "n1"⟩)]

/-- `BulkPut` stores its entries and logs nothing: the map holds a value
that no record of the log carries. -/
theorem bulkPut_not_logged :
    bulkPutRun.get (Bytes.ofString "k") = some ⟨Bytes.ofString "v", 1, Bytes.ofString "n1"⟩ ∧
      bulkPutRun.wal.replay = [] :=
  ⟨by decide, replay_of_none rfl⟩


/-! ## 3. One key -/

/-- An operation on one key: `Put`, `ConditionalPut`, one `BulkPut` entry,
`Delete`. -/
inductive KeyOp
  | put (value : Bytes) (ts : Timestamp) (originNode : Bytes)
  | conditionalPut (vv : VersionedValue)
  | bulkPutEntry (vv : VersionedValue)
  | delete (ts : Timestamp)
  deriving DecidableEq, Repr

namespace KeyOp

/-- The call on the engine. -/
def run (key : Bytes) : KeyOp → StorageEngine → StorageEngine
  | put v t o, s => (s.put key v t o).2
  | conditionalPut vv, s => (s.conditionalPut key vv).2
  | bulkPutEntry vv, s => s.bulkPut [(key, vv)]
  | delete t, s => (s.delete key t).2

/-- The entry a put offers; `none` for a delete. -/
def offered : KeyOp → Option VersionedValue
  | put v t o => some ⟨v, t, o⟩
  | conditionalPut vv | bulkPutEntry vv => some vv
  | delete _ => none

/-- The operation's timestamp. -/
def ts : KeyOp → Timestamp
  | put _ t _ => t
  | conditionalPut vv | bulkPutEntry vv => vv.timestamp
  | delete t => t

/-- What the operation does to the entry of its key: the engine's two rules. -/
def step (op : KeyOp) (cur : Option VersionedValue) : Option VersionedValue :=
  match op.offered with
  | some vv => if acceptsPut cur vv.timestamp then some vv else cur
  | none => if acceptsDelete cur op.ts then none else cur

theorem ts_of_offered {op : KeyOp} {vv : VersionedValue} (h : op.offered = some vv) :
    op.ts = vv.timestamp := by
  cases op <;> simp only [offered, reduceCtorEq, Option.some.injEq] at h <;> subst h <;> rfl

theorem get_run (key : Bytes) (op : KeyOp) (s : StorageEngine) :
    (op.run key s).get key = op.step (s.get key) := by
  cases op <;>
    simp [run, step, offered, ts, StorageEngine.get, StorageEngine.put, StorageEngine.bulkPut,
      lookup_applyPut, lookup_applyDelete]

/-- An operation on `key` leaves every other key alone. -/
theorem get_run_of_ne {key k : Bytes} (hk : k ≠ key) (op : KeyOp) (s : StorageEngine) :
    (op.run key s).get k = s.get k := by
  cases op <;>
    simp [run, StorageEngine.get, StorageEngine.put, StorageEngine.bulkPut, lookup_applyPut,
      lookup_applyDelete, hk]

/-- A step yields the offered entry or the one it found. -/
theorem step_eq_some {op : KeyOp} {c : Option VersionedValue} {vv : VersionedValue}
    (h : op.step c = some vv) : op.offered = some vv ∨ c = some vv := by
  unfold step at h
  split at h
  next w hw => split_ifs at h; exacts [.inl (h ▸ hw), .inr h]
  next => split_ifs at h; exact .inr h

end KeyOp

/-- A sequence of operations on `key`, applied in order. -/
def runAll (key : Bytes) (seq : List KeyOp) (s : StorageEngine) : StorageEngine :=
  seq.foldl (fun s op => op.run key s) s

theorem get_runAll (key : Bytes) (seq : List KeyOp) (s : StorageEngine) :
    (runAll key seq s).get key = seq.foldl (fun c op => op.step c) (s.get key) := by
  induction seq generalizing s with
  | nil => rfl
  | cons op seq ih => simp only [runAll, List.foldl_cons] at ih ⊢; rw [ih, KeyOp.get_run]

/-- A delete that reaches the engine before an older put is forgotten: the
put's entry stays although the delete is newer. -/
theorem delete_then_older_put_keeps_put :
    (runAll (Bytes.ofString "k") [.delete 200, .put (Bytes.ofString "v") 100 (Bytes.ofString "n1")]
      (StorageEngine.ofFile [])).get (Bytes.ofString "k") =
      some ⟨Bytes.ofString "v", 100, Bytes.ofString "n1"⟩ := by
  rw [get_runAll]; decide

/-! ## 4. LWW on one key -/

/-- The entry, if any, is `vv` or older than it. -/
def Dominated (vv : VersionedValue) : Option VersionedValue → Prop
  | none => True
  | some e => e = vv ∨ e.timestamp < vv.timestamp

/-- The entry, if any, is older than `t`. -/
def OlderThan (t : Timestamp) : Option VersionedValue → Prop
  | none => True
  | some e => e.timestamp < t

section Step

variable {op : KeyOp} {vv : VersionedValue} {c : Option VersionedValue}

/-- A step by `vv`'s own put, or by anything older, keeps entries dominated
by `vv`. -/
theorem step_dominated (hop : op.offered = some vv ∨ op.ts < vv.timestamp)
    (hc : Dominated vv c) : Dominated vv (op.step c) := by
  cases hoff : op.offered with
  | none => simp only [KeyOp.step, hoff]; split; exacts [trivial, hc]
  | some w =>
    have hw : w = vv ∨ w.timestamp < vv.timestamp := by
      rcases hop with hop | hop
      · exact .inl (Option.some.inj (hoff.symm.trans hop))
      · exact .inr (KeyOp.ts_of_offered hoff ▸ hop)
    simp only [KeyOp.step, hoff]; split; exacts [hw, hc]

/-- `vv`'s own put turns any dominated entry into `vv`. -/
theorem step_offered (hop : op.offered = some vv) (hc : Dominated vv c) :
    op.step c = some vv := by
  unfold KeyOp.step
  rw [hop]
  cases c with
  | none => rfl
  | some e =>
    rcases hc with rfl | h
    · simp [acceptsPut]
    · simp [acceptsPut, h]

/-- Once the entry is `vv`, a step by its own put or anything older keeps it. -/
theorem step_keeps (hop : op.offered = some vv ∨ op.ts < vv.timestamp) :
    op.step (some vv) = some vv := by
  unfold KeyOp.step
  cases hoff : op.offered with
  | none =>
    have h : op.ts < vv.timestamp := hop.resolve_left (by simp [hoff])
    simp only [acceptsDelete, ts_lt_iff] at h ⊢; simp; omega
  | some w =>
    have h : ¬ vv.timestamp < w.timestamp := by
      rcases hop with hop | hop
      · cases hoff.symm.trans hop; simp [ts_lt_iff]
      · rw [KeyOp.ts_of_offered hoff] at hop; simp only [ts_lt_iff] at hop ⊢; omega
    simp [acceptsPut, h]

/-- Puts older than `t`, and any delete, keep entries older than `t`. -/
theorem step_olderThan {t : Timestamp} (hop : ∀ w, op.offered = some w → w.timestamp < t)
    (hc : OlderThan t c) : OlderThan t (op.step c) := by
  cases hoff : op.offered with
  | none => simp only [KeyOp.step, hoff]; split; exacts [trivial, hc]
  | some w => simp only [KeyOp.step, hoff]; split; exacts [hop w hoff, hc]

/-- A delete newer than the entry removes it. -/
theorem step_delete_olderThan {t : Timestamp} (hc : OlderThan t c) :
    (KeyOp.delete t).step c = none := by
  cases c with
  | none => rfl
  | some e => simp [KeyOp.step, KeyOp.offered, KeyOp.ts, acceptsDelete, show e.timestamp < t from hc]

end Step

theorem foldl_step_dominated {vv : VersionedValue} (l : List KeyOp)
    (hl : ∀ op ∈ l, op.offered = some vv ∨ op.ts < vv.timestamp) {c : Option VersionedValue}
    (hc : Dominated vv c) : Dominated vv (l.foldl (fun c op => op.step c) c) := by
  induction l generalizing c with
  | nil => exact hc
  | cons op l ih =>
    exact ih (fun o ho => hl o (List.mem_cons_of_mem _ ho))
      (step_dominated (hl op (List.mem_cons_self _ _)) hc)

theorem foldl_step_keeps {vv : VersionedValue} (l : List KeyOp)
    (hl : ∀ op ∈ l, op.offered = some vv ∨ op.ts < vv.timestamp) :
    l.foldl (fun c op => op.step c) (some vv) = some vv := by
  induction l with
  | nil => rfl
  | cons op l ih =>
    rw [List.foldl_cons, step_keeps (hl op (List.mem_cons_self _ _))]
    exact ih fun o ho => hl o (List.mem_cons_of_mem _ ho)

theorem foldl_step_olderThan {t : Timestamp} (l : List KeyOp)
    (hl : ∀ op ∈ l, ∀ w, op.offered = some w → w.timestamp < t) {c : Option VersionedValue}
    (hc : OlderThan t c) : OlderThan t (l.foldl (fun c op => op.step c) c) := by
  induction l generalizing c with
  | nil => exact hc
  | cons op l ih =>
    exact ih (fun o ho => hl o (List.mem_cons_of_mem _ ho))
      (step_olderThan (hl op (List.mem_cons_self _ _)) hc)

theorem foldl_step_deletes (l : List KeyOp) (hl : ∀ op ∈ l, op.offered = none) :
    l.foldl (fun c op => op.step c) none = none := by
  induction l with
  | nil => rfl
  | cons op l ih =>
    rw [List.foldl_cons, show op.step none = none by
      simp [KeyOp.step, hl op (List.mem_cons_self _ _), acceptsDelete]]
    exact ih fun o ho => hl o (List.mem_cons_of_mem _ ho)

/-- **LWW on one key.** Whatever the order and repetition of a sequence of
operations on `key` applied to a fresh engine: a put newer than every other
operation of the sequence leaves exactly its entry, and a delete newer than
every put before it, with no put after it, leaves no entry. -/
theorem lww_largest_put_wins_last_delete_clears (key file : Bytes) (seq : List KeyOp) :
    (∀ P ∈ seq, ∀ vv, P.offered = some vv → (∀ op ∈ seq, op ≠ P → op.ts < vv.timestamp) →
      (runAll key seq (StorageEngine.ofFile file)).get key = some vv) ∧
    (∀ pre post t, seq = pre ++ KeyOp.delete t :: post →
      (∀ op ∈ pre, ∀ w, op.offered = some w → w.timestamp < t) →
      (∀ op ∈ post, op.offered = none) →
      (runAll key seq (StorageEngine.ofFile file)).get key = none) := by
  constructor
  · intro P hP vv hvv hmax
    have hl : ∀ op ∈ seq, op.offered = some vv ∨ op.ts < vv.timestamp := fun op hop =>
      if h : op = P then .inl (h ▸ hvv) else .inr (hmax op hop h)
    obtain ⟨pre, post, rfl⟩ := List.append_of_mem hP
    rw [get_runAll, StorageEngine.get_ofFile, List.foldl_append, List.foldl_cons,
      step_offered hvv (foldl_step_dominated pre (fun op h => hl op (by simp [h])) (c := none) trivial)]
    exact foldl_step_keeps post fun op h => hl op (by simp [h])
  · rintro pre post t rfl hpre hpost
    have hc := foldl_step_olderThan pre hpre (c := none) trivial
    rw [get_runAll, StorageEngine.get_ofFile, List.foldl_append, List.foldl_cons,
      step_delete_olderThan hc]
    exact foldl_step_deletes post hpost

/-- The put the sample sequences revolve around. -/
def samplePut : KeyOp := .put (Bytes.ofString "v") 100 (Bytes.ofString "n1")

/-- Both halves on sample sequences: a newest put among an older delete and
an older put wins; a newer delete after the only put clears the key. -/
theorem lww_on_samples :
    ((∀ op ∈ [KeyOp.delete 50, samplePut, .put (Bytes.ofString "w") 70 (Bytes.ofString "n2")],
        op ≠ samplePut → op.ts < 100) ∧
      (runAll (Bytes.ofString "k")
          [.delete 50, samplePut, .put (Bytes.ofString "w") 70 (Bytes.ofString "n2")]
          (StorageEngine.ofFile [])).get (Bytes.ofString "k") =
        some ⟨Bytes.ofString "v", 100, Bytes.ofString "n1"⟩) ∧
    ((∀ op ∈ [samplePut], ∀ w, op.offered = some w → w.timestamp < 200) ∧
      (runAll (Bytes.ofString "k") ([samplePut] ++ KeyOp.delete 200 :: [])
          (StorageEngine.ofFile [])).get (Bytes.ofString "k") = none) := by
  have h₁ : ∀ op ∈ [KeyOp.delete 50, samplePut, .put (Bytes.ofString "w") 70 (Bytes.ofString "n2")],
      op ≠ samplePut → op.ts < 100 := by decide
  have h₂ : ∀ op ∈ [samplePut], ∀ w, op.offered = some w → w.timestamp < 200 := by
    intro op hop w hw
    simp only [List.mem_singleton] at hop
    subst hop
    cases hw
    decide
  exact ⟨⟨h₁, (lww_largest_put_wins_last_delete_clears _ _ _).1 samplePut (by decide) _ rfl h₁⟩,
    ⟨h₂, (lww_largest_put_wins_last_delete_clears _ _ _).2 [samplePut] [] 200 rfl h₂ (by simp)⟩⟩

/-! ## 5. `GetAllData` into `BulkPut` -/

/-- `StorageEngine::GetAllData`: every entry of the map once, in the map's
iteration order, which nothing fixes; a result is any list `l` with
`↑l = s.getAllData`. -/
def StorageEngine.getAllData (s : StorageEngine) : Multiset (Bytes × VersionedValue) :=
  s.store.entries.map fun e => (e.1, e.2)

section Snapshot

variable {s : StorageEngine} {l : List (Bytes × VersionedValue)}

theorem nodup_keys_of_getAllData (h : ↑l = s.getAllData) : (l.map Prod.fst).Nodup := by
  have hl : (↑(l.map fun p => (⟨p.1, p.2⟩ : Σ _ : Bytes, VersionedValue)) : Multiset _) =
      s.store.entries := by
    rw [← Multiset.map_coe, h, StorageEngine.getAllData, Multiset.map_map]
    exact Multiset.map_id' _
  have hnd := s.store.nodupKeys
  rw [← hl, Multiset.coe_nodupKeys] at hnd
  simpa [List.NodupKeys, List.keys, List.map_map, Function.comp_def] using hnd

theorem mem_of_getAllData (h : ↑l = s.getAllData) {k : Bytes} {vv : VersionedValue} :
    (k, vv) ∈ l ↔ s.get k = some vv := by
  rw [← Multiset.mem_coe, h, StorageEngine.getAllData, StorageEngine.get, Multiset.mem_map,
    ← Option.mem_def, Finmap.mem_lookup_iff]
  constructor
  · rintro ⟨⟨k', vv'⟩, he, hkv⟩
    cases hkv
    exact he
  · exact fun he => ⟨_, he, rfl⟩

end Snapshot

/-- The map after `BulkPut`'s loop over `l`. -/
theorem lookup_foldl_applyPut_of_not_mem {k : Bytes} :
    ∀ {l : List (Bytes × VersionedValue)} (m : KVMap), k ∉ l.map Prod.fst →
      (l.foldl (fun m e => applyPut m e.1 e.2) m).lookup k = m.lookup k
  | [], _, _ => rfl
  | (k', vv') :: l, m, hk => by
    simp only [List.map_cons, List.mem_cons, not_or] at hk
    rw [List.foldl_cons, lookup_foldl_applyPut_of_not_mem _ hk.2, lookup_applyPut,
      if_neg (fun h => hk.1 h.1)]

theorem lookup_foldl_applyPut {k : Bytes} {vv : VersionedValue} :
    ∀ {l : List (Bytes × VersionedValue)} (m : KVMap), (l.map Prod.fst).Nodup → (k, vv) ∈ l →
      (l.foldl (fun m e => applyPut m e.1 e.2) m).lookup k = (applyPut m k vv).lookup k
  | [], _, _, h => by simp at h
  | (k', vv') :: l, m, hnd, h => by
    rw [List.map_cons, List.nodup_cons] at hnd
    rw [List.foldl_cons]
    rcases List.mem_cons.mp h with h | hl
    · cases h
      exact lookup_foldl_applyPut_of_not_mem _ hnd.1
    · have hk : k ≠ k' := by
        rintro rfl
        exact hnd.1 (List.mem_map.mpr ⟨_, hl, rfl⟩)
      rw [lookup_foldl_applyPut _ hnd.2 hl]
      simp only [lookup_applyPut, hk, false_and, if_false]

/-- `BulkPut` of another engine's `GetAllData`, in whatever order the
snapshot lists it: every key ends with the sender's version when the put
rule accepts it (the receiver lacks the key or holds a strictly older
version), and keeps the receiver's otherwise. -/
theorem bulkPut_getAllData (a b : StorageEngine) {l : List (Bytes × VersionedValue)}
    (hl : ↑l = a.getAllData) (k : Bytes) :
    (b.bulkPut l).get k = match a.get k with
      | some vv => if acceptsPut (b.get k) vv.timestamp then some vv else b.get k
      | none => b.get k := by
  cases ha : a.get k with
  | none =>
    refine lookup_foldl_applyPut_of_not_mem _ fun hk => ?_
    obtain ⟨⟨k', vv⟩, hkv, rfl⟩ := List.mem_map.mp hk
    simp [(mem_of_getAllData hl).mp hkv] at ha
  | some vv =>
    rw [StorageEngine.get, StorageEngine.bulkPut,
      lookup_foldl_applyPut _ (nodup_keys_of_getAllData hl) ((mem_of_getAllData hl).mpr ha),
      lookup_applyPut]
    simp only [true_and, StorageEngine.get]

/-- Two engines holding keys `[7]`, `[8]` and `[9]`: the receiver `mergeB`
holds `[7]` older than `mergeA`, `[8]` at the same timestamp with another
value, and `[9]` newer. -/
def mergeA : StorageEngine :=
  ⟨((Finmap.singleton [7] ⟨[1], 2, []⟩).insert [8] ⟨[1], 5, []⟩).insert [9] ⟨[1], 3, []⟩, ⟨[]⟩⟩

def mergeB : StorageEngine :=
  ⟨((Finmap.singleton [7] ⟨[2], 1, []⟩).insert [8] ⟨[2], 5, []⟩).insert [9] ⟨[2], 4, []⟩, ⟨[]⟩⟩

theorem bulkPut_getAllData_sample :
    (mergeB.bulkPut [([9], ⟨[1], 3, []⟩), ([8], ⟨[1], 5, []⟩), ([7], ⟨[1], 2, []⟩)]).get [7] =
        some ⟨[1], 2, []⟩ ∧
      (mergeB.bulkPut [([9], ⟨[1], 3, []⟩), ([8], ⟨[1], 5, []⟩), ([7], ⟨[1], 2, []⟩)]).get [9] =
        some ⟨[2], 4, []⟩ :=
  ⟨(bulkPut_getAllData mergeA mergeB rfl [7]).trans (by decide),
    (bulkPut_getAllData mergeA mergeB rfl [9]).trans (by decide)⟩

/-- Two engines that exchange `GetAllData` snapshots, each taken before
either merge, end with the same version of every key they do not hold at
one timestamp; a key both hold at the same timestamp keeps, in each, its
own version. -/
theorem snapshot_exchange_converges (a b : StorageEngine) {la lb : List (Bytes × VersionedValue)}
    (ha : ↑la = a.getAllData) (hb : ↑lb = b.getAllData) (k : Bytes) :
    ((∀ va vb, a.get k = some va → b.get k = some vb → va.timestamp ≠ vb.timestamp) →
        (a.bulkPut lb).get k = (b.bulkPut la).get k) ∧
      ∀ va vb, a.get k = some va → b.get k = some vb → va.timestamp = vb.timestamp →
        (a.bulkPut lb).get k = some va ∧ (b.bulkPut la).get k = some vb := by
  rw [bulkPut_getAllData b a hb k, bulkPut_getAllData a b ha k]
  refine ⟨fun hts => ?_, fun va vb hva hvb heq => ?_⟩
  · cases hva : a.get k with
    | none => cases b.get k <;> rfl
    | some va =>
      cases hvb : b.get k with
      | none => rfl
      | some vb =>
        have hne := ts_eq_iff.not.mp (hts va vb hva hvb)
        simp only [acceptsPut, ts_lt_iff, decide_eq_true_eq]
        by_cases hlt : va.timestamp.toNat < vb.timestamp.toNat
        · rw [if_pos hlt, if_neg (by omega)]
        · rw [if_neg hlt, if_pos (by omega)]
  · have hlt : ¬ vb.timestamp < vb.timestamp := fun h => Nat.lt_irrefl _ (ts_lt_iff.mp h)
    simp only [hva, hvb, acceptsPut, heq, hlt, decide_False, Bool.false_eq_true, if_false, and_self]

theorem snapshot_exchange_converges_sample :
    (mergeA.bulkPut [([9], ⟨[2], 4, []⟩), ([8], ⟨[2], 5, []⟩), ([7], ⟨[2], 1, []⟩)]).get [7] =
        (mergeB.bulkPut [([9], ⟨[1], 3, []⟩), ([8], ⟨[1], 5, []⟩), ([7], ⟨[1], 2, []⟩)]).get [7] ∧
      (mergeA.bulkPut [([9], ⟨[2], 4, []⟩), ([8], ⟨[2], 5, []⟩), ([7], ⟨[2], 1, []⟩)]).get [8] =
        some ⟨[1], 5, []⟩ ∧
      (mergeB.bulkPut [([9], ⟨[1], 3, []⟩), ([8], ⟨[1], 5, []⟩), ([7], ⟨[1], 2, []⟩)]).get [8] =
        some ⟨[2], 5, []⟩ :=
  ⟨(snapshot_exchange_converges mergeA mergeB rfl rfl [7]).1 (by
      intro va vb h₁ h₂
      cases (show mergeA.get [7] = some ⟨[1], 2, []⟩ by decide).symm.trans h₁
      cases (show mergeB.get [7] = some ⟨[2], 1, []⟩ by decide).symm.trans h₂
      decide),
    (snapshot_exchange_converges mergeA mergeB rfl rfl [8]).2 _ _ (by decide) (by decide) rfl⟩

end KvStore.Storage
