import Aiokpl.AggregatorRuns
import Aiokpl.Collector

/-!
# What `flush` leaves behind

`Reducer.flush` packs one batch.  The items that do not fit it stay active, so a
flush empties a Reducer exactly when its items are one batch within the limits,
or a single item.  `Aggregator.flush` goes through its Reducers one by one, while
their timers and other flushes go on.
-/

namespace Aiokpl

open Lib Aggregation

namespace Reducer

section Flush

variable {I B : Type} [Batchable I] [Batch I B] [BatchLaws I B] [CountsItems I B]

/-- The items leave with one batch: in deadline order they are within the limits,
    or there is at most one of them. -/
def Whole (cfg : Config I B) (items : List I) : Prop :=
  Fits cfg (sortBy Batchable.deadline items) ∨ items.length ≤ 1

instance (cfg : Config I B) (items : List I) : Decidable (Whole cfg items) := by
  unfold Whole
  infer_instance

variable (cfg : Config I B)

omit [BatchLaws I B] in
theorem flush_of_empty {r : State B} (now : Time) (hempty : Batch.items r.active = []) :
    Batch.items (flush cfg now r).1.active = [] := by
  have hcount : Batch.count r.active = 0 := by
    rw [CountsItems.count_eq, hempty]
    rfl
  simp [flush, hcount, hempty]

theorem flush_wellPacked {r : State B} (now : Time) (hne : Batch.items r.active ≠ []) :
    ∃ closed, (flush cfg now r).2 = some closed ∧
      WellPacked cfg (Batch.items r.active) closed (Batch.items (flush cfg now r).1.active) := by
  have hcount : Batch.count r.active ≠ 0 := by
    rw [CountsItems.count_eq]
    simpa using hne
  refine ⟨(packAndSplit cfg now r).2, ?_, ?_⟩
  · simp [flush, hcount]
  · have hpacked := packAndSplit_wellPacked cfg now r hne
    simpa [flush, hcount] using hpacked

/-- A flush leaves nothing active exactly when the items are one batch. -/
theorem flush_empties_iff (now : Time) (r : State B) :
    Batch.items (flush cfg now r).1.active = [] ↔ Whole cfg (Batch.items r.active) := by
  by_cases hempty : Batch.items r.active = []
  · have hwhole : Whole cfg (Batch.items r.active) := Or.inr (by simp [hempty])
    exact ⟨fun _ => hwhole, fun _ => flush_of_empty cfg now hempty⟩
  · obtain ⟨closed, _, hcut⟩ := flush_wellPacked cfg now hempty
    constructor
    · intro hleft
      have hall : Batch.items closed = sortBy Batchable.deadline (Batch.items r.active) := by
        simpa [hleft] using hcut.split
      rcases hcut.within with hfits | ⟨x, hx⟩
      · exact Or.inl (hall ▸ hfits)
      · have hlength := (sortBy_perm Batchable.deadline (Batch.items r.active)).length_eq
        rw [← hall, hx] at hlength
        exact Or.inr hlength.ge
    · intro hwhole
      have hlength := hcut.perm.length_eq
      rw [List.length_append] at hlength
      rcases hwhole with hfits | hone
      · rw [hcut.all hfits, (sortBy_perm Batchable.deadline _).length_eq] at hlength
        exact List.length_eq_zero_iff.mp (by omega)
      · have hclosed := List.length_pos_iff.mpr hcut.nonempty
        exact List.length_eq_zero_iff.mp (by omega)

theorem flush_perm (now : Time) (r : State B) :
    ((flush cfg now r).2.toList.flatMap Batch.items ++ Batch.items (flush cfg now r).1.active).Perm
      (Batch.items r.active) := by
  have hop : Op.flush now ≠ (Op.aclose : Op I) := by simp
  have hstep : step cfg r (.flush now) = some ((flush cfg now r).1, (flush cfg now r).2) := rfl
  simpa [Op.adds] using step_items_perm hop hstep

/-- **One flush.**  All that was active leaves, in the batch that is returned, exactly
    when it is one batch. -/
theorem flush_hands_over_iff (now : Time) (r : State B) :
    (Batch.items (flush cfg now r).1.active = [] ∧
        ((flush cfg now r).2.toList.flatMap Batch.items).Perm (Batch.items r.active)) ↔
      Whole cfg (Batch.items r.active) := by
  rw [← flush_empties_iff cfg now r]
  constructor
  · intro h
    exact h.1
  · intro hempty
    have hperm := flush_perm cfg now r
    rw [hempty, List.append_nil] at hperm
    exact ⟨hempty, hperm⟩

end Flush

end Reducer

namespace Aggregator

/-! ## The flush of an Aggregator -/

/-- A call of `flush` under way: the Reducers it has yet to flush, and the batches
    handed to `on_batch_ready` since it began. -/
structure Flush where
  aggregator : State
  waiting : List (Option ShardId)
  dispatched : List AggregatedBatch := []

/-- The call flushes its next Reducer, or a timer task or another flush runs. -/
inductive FlushOp
  | next (now : Time)
  | meanwhile (shardKey : Option ShardId) (op : Reducer.Op BufferedRecord)

def Flush.onReducer (cfg : Config) (shardKey : Option ShardId) (op : Reducer.Op BufferedRecord)
    (f : Flush) : Option Flush :=
  (Aggregator.onReducer cfg shardKey op f.aggregator).map fun out =>
    { f with aggregator := out.1, dispatched := f.dispatched ++ out.2.toList }

def Flush.step (cfg : Config) (f : Flush) : FlushOp → Option Flush
  | .next now =>
    match f.waiting with
    | [] => none
    | shardKey :: waiting => { f with waiting }.onReducer cfg shardKey (.flush now)
  | .meanwhile shardKey op => if progresses op then f.onReducer cfg shardKey op else none

/-- `reducers = list(self._reducers.values())`, and nothing dispatched yet. -/
def Flush.start (a : State) (f : Flush) : Prop :=
  f = { aggregator := a, waiting := a.reducers.keys }

/-- The Reducer that is flushed next holds one batch. -/
def findsWhole (cfg : Config) (f : Flush) : FlushOp → Prop
  | .next _ => ∀ key ∈ f.waiting.head?, ∀ r ∈ f.aggregator.reducers.get? key,
      Reducer.Whole (cfg.reducer key) r.active.items
  | .meanwhile _ _ => True

instance (cfg : Config) (f : Flush) (op : FlushOp) : Decidable (findsWhole cfg f op) := by
  cases op <;> unfold findsWhole <;> infer_instance

/-- Nothing else runs. -/
def undisturbed (_ : Flush) : FlushOp → Prop
  | .next _ => True
  | .meanwhile _ _ => False

instance (f : Flush) (op : FlushOp) : Decidable (undisturbed f op) := by
  cases op <;> unfold undisturbed <;> infer_instance

/-- The records in the Reducers. -/
def State.buffered (a : State) : List BufferedRecord :=
  a.reducers.values.flatMap fun r => r.active.items

theorem count_buffered (x : BufferedRecord) (a : State) :
    a.buffered.count x = a.reducers.total fun _ r => r.active.items.count x := by
  rw [State.buffered, List.count_flatMap, Dict.values, List.map_map]
  rfl

theorem buffered_eq_nil_iff {a : State} :
    a.buffered = [] ↔ ∀ key r, a.reducers.get? key = some r → r.active.items = [] := by
  rw [State.buffered, List.flatMap_eq_nil_iff]
  constructor
  · intro h key r hget
    exact h r (Dict.mem_values.mpr ⟨key, hget⟩)
  · intro h r hr
    obtain ⟨key, hget⟩ := Dict.mem_values.mp hr
    exact h key r hget

/-- An operation of one Reducer, for all records of the Aggregator. -/
theorem onReducer_perm {cfg : Config} {key : Option ShardId} {op : Reducer.Op BufferedRecord}
    {a a' : State} {closed : Option AggregatedBatch} (hop : op ≠ .aclose)
    (h : onReducer cfg key op a = some (a', closed)) :
    (closed.toList.flatMap AggregatedBatch.items ++ a'.buffered).Perm (a.buffered ++ op.adds) := by
  obtain ⟨r, r', closed', hget, hstep, hout⟩ := onReducer_eq_some h
  obtain ⟨rfl, rfl⟩ := Prod.mk.inj hout
  have hperm := Reducer.step_items_perm hop hstep
  rw [List.perm_iff_count]
  intro x
  have hcount : (closed.toList.flatMap AggregatedBatch.items).count x +
      r'.active.items.count x = r.active.items.count x + op.adds.count x := by
    rw [← List.count_append, ← List.count_append]
    exact hperm.count_eq x
  have htotal := Dict.total_set_of_get? (fun _ r => r.active.items.count x) hget r'
  rw [List.count_append, List.count_append, count_buffered, count_buffered]
  dsimp only at htotal ⊢
  omega

/-- What may go on during a flush adds nothing. -/
theorem progresses_adds {op : Reducer.Op BufferedRecord} (hop : progresses op = true) :
    op ≠ .aclose ∧ op.adds = [] := by
  cases op <;> simp [progresses, Reducer.Op.adds] at hop ⊢

/-- A Reducer that has been emptied stays empty without an add. -/
theorem onReducer_empty {cfg : Config} {key key' : Option ShardId} {op : Reducer.Op BufferedRecord}
    {a a' : State} {closed : Option AggregatedBatch} (hop : progresses op = true)
    (h : onReducer cfg key op a = some (a', closed))
    (hempty : ∀ r, a.reducers.get? key' = some r → r.active.items = []) :
    ∀ r, a'.reducers.get? key' = some r → r.active.items = [] := by
  obtain ⟨r, r', closed', hget, hstep, hout⟩ := onReducer_eq_some h
  obtain ⟨rfl, rfl⟩ := Prod.mk.inj hout
  intro r'' hget'
  by_cases hkey : key' = key
  · subst hkey
    rw [Dict.get?_set_self] at hget'
    obtain rfl := Option.some.inj hget'
    have hadds := progresses_adds hop
    have hperm := Reducer.step_items_perm hadds.1 hstep
    have hbefore : Batch.items r.active = [] := hempty r hget
    rw [hadds.2, hbefore] at hperm
    exact (List.append_eq_nil_iff.mp hperm.eq_nil).2
  · rw [Dict.get?_set_ne _ _ hkey] at hget'
    exact hempty r'' hget'

theorem Flush.onReducer_eq_some {cfg : Config} {key : Option ShardId}
    {op : Reducer.Op BufferedRecord} {f f' : Flush} (h : f.onReducer cfg key op = some f') :
    ∃ a' closed, Aggregator.onReducer cfg key op f.aggregator = some (a', closed) ∧
      f' = { f with aggregator := a', dispatched := f.dispatched ++ closed.toList } := by
  obtain ⟨⟨a', closed⟩, hop, rfl⟩ := Option.map_eq_some_iff.mp h
  exact ⟨a', closed, hop, rfl⟩

/-- Nothing gets lost, whatever happens meanwhile. -/
def Flush.Conserves (a : State) (f : Flush) : Prop :=
  (f.dispatched.flatMap AggregatedBatch.items ++ f.aggregator.buffered).Perm a.buffered

theorem Flush.onReducer_conserves {cfg : Config} {key : Option ShardId}
    {op : Reducer.Op BufferedRecord} {a : State} {f f' : Flush} (hinv : f.Conserves a)
    (hop : progresses op = true) (h : f.onReducer cfg key op = some f') : f'.Conserves a := by
  obtain ⟨a', closed, hclosed, rfl⟩ := Flush.onReducer_eq_some h
  have hadds := progresses_adds hop
  have hperm := onReducer_perm hadds.1 hclosed
  rw [hadds.2, List.append_nil] at hperm
  rw [Conserves, List.flatMap_append, List.append_assoc]
  exact (hperm.append_left _).trans hinv

/-- The steps of a flush. -/
theorem Flush.step_cases {cfg : Config} {f f' : Flush} {op : FlushOp}
    (h : f.step cfg op = some f') :
    (∃ now key waiting, op = .next now ∧ f.waiting = key :: waiting ∧
        { f with waiting }.onReducer cfg key (.flush now) = some f') ∨
      ∃ key rop, op = .meanwhile key rop ∧ progresses rop = true ∧
        f.onReducer cfg key rop = some f' := by
  cases op with
  | next now =>
    simp only [Flush.step] at h
    split at h
    · simp at h
    · rename_i key waiting hwaiting
      exact Or.inl ⟨now, key, waiting, rfl, hwaiting, h⟩
  | meanwhile key rop =>
    simp only [Flush.step, Option.ite_none_right_eq_some] at h
    exact Or.inr ⟨key, rop, rfl, h.1, h.2⟩

theorem Flush.step_conserves {cfg : Config} {a : State} {f f' : Flush} {op : FlushOp}
    (hinv : f.Conserves a) (h : f.step cfg op = some f') : f'.Conserves a := by
  rcases Flush.step_cases h with ⟨now, key, waiting, rfl, _, hnext⟩ | ⟨key, rop, rfl, hop, hmean⟩
  · have hinv' : { f with waiting }.Conserves a := hinv
    exact Flush.onReducer_conserves hinv' rfl hnext
  · exact Flush.onReducer_conserves hinv hop hmean

theorem Flush.start_conserves {a : State} {f : Flush} (h : Flush.start a f) : f.Conserves a := by
  subst h
  exact List.Perm.refl _

/-- Once everything has been handed over, nothing is left, and the other way round. -/
theorem Flush.Conserves.dispatched_iff {a : State} {f : Flush} (h : f.Conserves a) :
    (f.dispatched.flatMap AggregatedBatch.items).Perm a.buffered ↔ f.aggregator.buffered = [] := by
  constructor
  · intro hall
    have hlength := h.length_eq
    rw [List.length_append, hall.length_eq] at hlength
    exact List.length_eq_zero_iff.mp (by omega)
  · intro hempty
    rw [Conserves, hempty, List.append_nil] at h
    exact h

/-! ### Flushes that find whole batches -/

/-- The Reducers the call is done with are empty. -/
def Flush.Emptied (f : Flush) : Prop :=
  ∀ key ∉ f.waiting, ∀ r, f.aggregator.reducers.get? key = some r → r.active.items = []

theorem flush_onReducer_get? {cfg : Config} {now : Time} {key : Option ShardId} {a a' : State}
    {closed : Option AggregatedBatch}
    (h : onReducer cfg key (.flush now) a = some (a', closed)) :
    ∃ r, a.reducers.get? key = some r ∧
      a'.reducers.get? key = some (Reducer.flush (cfg.reducer key) now r).1 ∧
      ∀ key', key' ≠ key → a'.reducers.get? key' = a.reducers.get? key' := by
  obtain ⟨r, r', closed', hget, hstep, hout⟩ := onReducer_eq_some h
  obtain ⟨rfl, rfl⟩ := Prod.mk.inj hout
  have hflush : Reducer.flush (cfg.reducer key) now r = (r', closed) := Option.some.inj hstep
  refine ⟨r, hget, ?_, ?_⟩
  · rw [hflush]
    exact Dict.get?_set_self ..
  · intro key' hkey
    exact Dict.get?_set_ne _ _ hkey

theorem Flush.step_emptied {cfg : Config} {f f' : Flush} {op : FlushOp} (hinv : f.Emptied)
    (hop : findsWhole cfg f op) (h : f.step cfg op = some f') : f'.Emptied := by
  rcases Flush.step_cases h with
    ⟨now, key, waiting, rfl, hwaiting, hnext⟩ | ⟨key, rop, rfl, hrop, hmean⟩
  · obtain ⟨a', closed, hclosed, rfl⟩ := Flush.onReducer_eq_some hnext
    obtain ⟨r, hget, hafter, hother⟩ := flush_onReducer_get? hclosed
    intro key' hkey' r' hget'
    by_cases hkey : key' = key
    · subst hkey
      rw [hafter] at hget'
      obtain rfl := Option.some.inj hget'
      have hwhole := hop key' (by simp [hwaiting]) r hget
      exact (Reducer.flush_empties_iff (cfg.reducer key') now r).mpr hwhole
    · rw [hother key' hkey] at hget'
      refine hinv key' ?_ r' hget'
      rw [hwaiting, List.mem_cons, not_or]
      exact ⟨hkey, hkey'⟩
  · obtain ⟨a', closed, hclosed, rfl⟩ := Flush.onReducer_eq_some hmean
    intro key' hkey'
    exact onReducer_empty hrop hclosed (hinv key' hkey')

theorem Flush.start_emptied {a : State} {f : Flush} (h : Flush.start a f) : f.Emptied := by
  subst h
  intro key hkey r hget
  have hnone := Dict.get?_eq_none_iff.mpr hkey
  rw [hnone] at hget
  cases hget

/-! ### Flushes that nothing disturbs -/

/-- The Reducers ahead are as they were; those behind are empty if they held one batch. -/
structure Flush.Exact (cfg : Config) (a : State) (f : Flush) : Prop where
  nodup : f.waiting.Nodup
  ahead : ∀ key ∈ f.waiting, f.aggregator.reducers.get? key = a.reducers.get? key
  missing : ∀ key, a.reducers.get? key = none → f.aggregator.reducers.get? key = none
  behind : ∀ key ∉ f.waiting, ∀ r, a.reducers.get? key = some r →
    ∃ r', f.aggregator.reducers.get? key = some r' ∧
      (r'.active.items = [] ↔ Reducer.Whole (cfg.reducer key) r.active.items)

theorem Flush.start_exact {cfg : Config} {a : State} {f : Flush} (h : Flush.start a f) :
    f.Exact cfg a := by
  subst h
  refine ⟨a.reducers.nodup, fun _ _ => rfl, fun _ hnone => hnone, ?_⟩
  intro key hkey r hget
  rw [Dict.get?_eq_none_iff.mpr hkey] at hget
  cases hget

theorem Flush.step_exact {cfg : Config} {a : State} {f f' : Flush} {op : FlushOp}
    (hinv : f.Exact cfg a) (hop : undisturbed f op) (h : f.step cfg op = some f') :
    f'.Exact cfg a := by
  rcases Flush.step_cases h with
    ⟨now, key, waiting, rfl, hwaiting, hnext⟩ | ⟨key, rop, rfl, _, _⟩
  · obtain ⟨a', closed, hclosed, rfl⟩ := Flush.onReducer_eq_some hnext
    obtain ⟨r, hget, hafter, hother⟩ := flush_onReducer_get? hclosed
    obtain ⟨hnodup, hahead, hmissing, hbehind⟩ := hinv
    rw [hwaiting, List.nodup_cons] at hnodup
    have hsame : a.reducers.get? key = some r := by
      rw [← hahead key (by simp [hwaiting]), hget]
    refine ⟨hnodup.2, ?_, ?_, ?_⟩
    · intro key' hkey'
      have hne : key' ≠ key := fun heq => hnodup.1 (heq ▸ hkey')
      rw [hother key' hne]
      exact hahead key' (by simp [hwaiting, hkey'])
    · intro key' hnone
      have hne : key' ≠ key := by
        intro heq
        rw [heq, hsame] at hnone
        cases hnone
      rw [hother key' hne]
      exact hmissing key' hnone
    · intro key' hkey' r₀ hget₀
      by_cases hkey : key' = key
      · subst hkey
        rw [hsame] at hget₀
        obtain rfl := Option.some.inj hget₀
        exact ⟨_, hafter, Reducer.flush_empties_iff (cfg.reducer key') now r⟩
      · rw [hother key' hkey]
        refine hbehind key' ?_ r₀ hget₀
        rw [hwaiting, List.mem_cons, not_or]
        exact ⟨hkey, hkey'⟩
  · exact absurd hop id

theorem Flush.Exact.buffered_eq_nil_iff {cfg : Config} {a : State} {f : Flush}
    (h : f.Exact cfg a) (hdone : f.waiting = []) :
    f.aggregator.buffered = [] ↔
      ∀ key r, a.reducers.get? key = some r → Reducer.Whole (cfg.reducer key) r.active.items := by
  have hbehind : ∀ key, key ∉ f.waiting := by simp [hdone]
  rw [Aggregator.buffered_eq_nil_iff]
  constructor
  · intro hempty key r hget
    obtain ⟨r', hget', hiff⟩ := h.behind key (hbehind key) r hget
    exact hiff.mp (hempty key r' hget')
  · intro hwhole key r' hget'
    cases hget : a.reducers.get? key with
    | none =>
      rw [h.missing key hget] at hget'
      cases hget'
    | some r =>
      obtain ⟨r'', hget'', hiff⟩ := h.behind key (hbehind key) r hget
      rw [hget''] at hget'
      obtain rfl := Option.some.inj hget'
      exact hiff.mpr (hwhole key r hget)

/-! ### What a flush drains -/

/-- **What `flush` drains.**  A Reducer hands over all it holds exactly when that is
    one batch; the Collector's flush is that of its one Reducer.  If every Reducer of
    an Aggregator holds one batch when its turn comes, then whatever timers and other
    flushes do meanwhile, everything that was buffered has been dispatched when `flush`
    returns; and if nothing else runs, only then. -/
theorem flush_drains {I B : Type} [Batchable I] [Batch I B] [BatchLaws I B] [CountsItems I B]
    (rcfg : Reducer.Config I B) (cfg : Config) :
    (∀ now r,
      (Batch.items (Reducer.flush rcfg now r).1.active = [] ∧
          ((Reducer.flush rcfg now r).2.toList.flatMap Batch.items).Perm (Batch.items r.active)) ↔
        Reducer.Whole rcfg (Batch.items r.active)) ∧
    (∀ a f, Reachable (Flush.start a) (Flush.step cfg) (findsWhole cfg) f → f.waiting = [] →
      f.aggregator.buffered = [] ∧
        (f.dispatched.flatMap AggregatedBatch.items).Perm a.buffered) ∧
    ∀ a f, Reachable (Flush.start a) (Flush.step cfg) undisturbed f → f.waiting = [] →
      ((f.dispatched.flatMap AggregatedBatch.items).Perm a.buffered ↔
        ∀ key r, a.reducers.get? key = some r →
          Reducer.Whole (cfg.reducer key) r.active.items) := by
  refine ⟨Reducer.flush_hands_over_iff rcfg, ?_, ?_⟩
  · intro a f hreach hdone
    have hconserves : f.Conserves a := hreach.invariant
      (fun _ h => Flush.start_conserves h) fun _ _ _ hinv _ hstep => Flush.step_conserves hinv hstep
    have hemptied : f.Emptied := hreach.invariant
      (fun _ h => Flush.start_emptied h) fun _ _ _ hinv hop hstep =>
        Flush.step_emptied hinv hop hstep
    have hempty : f.aggregator.buffered = [] := by
      rw [buffered_eq_nil_iff]
      intro key
      exact hemptied key (by simp [hdone])
    exact ⟨hempty, hconserves.dispatched_iff.mpr hempty⟩
  · intro a f hreach hdone
    have hconserves : f.Conserves a := hreach.invariant
      (fun _ h => Flush.start_conserves h) fun _ _ _ hinv _ hstep => Flush.step_conserves hinv hstep
    have hexact : f.Exact cfg a := hreach.invariant
      (fun _ h => Flush.start_exact h) fun _ _ _ hinv hop hstep => Flush.step_exact hinv hop hstep
    rw [hconserves.dispatched_iff]
    exact hexact.buffered_eq_nil_iff hdone

/-! ### A Reducer that holds more than one batch -/

/-- An Aggregator whose batches hold a hundred bytes. -/
def smallBatches : System := { demo with cfg := { aggregationMaxSize := 100 } }

def ofSize (bytes : Nat) : UserRecord := { partitionKey := "p", data := List.replicate bytes 0 }

/-- A record that comes back from the Retrier is due 25 ms later, so before the
    record that was put 10 ms ago. -/
def retried : BufferedRecord :=
  { ident := 2, userRecord := ofSize 81, deadline := 115 / 1000, hashKey := 0, arrivalTime := 0 }

/-- The records in the Reducers, by their numbers. -/
def State.idents (a : State) : List Nat := a.buffered.map BufferedRecord.ident

theorem flush_drains_two_shards :
    ∃ run f, Reachable (Run.start demo) (Run.step demo) anyStep run ∧
      Reachable (Flush.start run.aggregator) (Flush.step demo.cfg) (findsWhole demo.cfg) f ∧
      run.aggregator.idents = [0, 1] ∧ f.waiting = [] ∧
      f.aggregator.buffered = [] ∧
      (f.dispatched.flatMap AggregatedBatch.items).Perm run.aggregator.buffered := by
  have hrun : (exec (Run.step demo) anyStep { map := ShardMap.init demo.mapCfg }
      ([.put 0 0 (ofSize 5), .put 0 1 (ofSize 7)] ++ settle 0 0 ++ settle 0 0)).map
      (fun run => (run.aggregator.idents,
        (exec (Flush.step demo.cfg) (findsWhole demo.cfg)
          { aggregator := run.aggregator, waiting := run.aggregator.reducers.keys }
          [.next 0]).map Flush.waiting)) = some ([0, 1], some []) := by
    decide +kernel
  obtain ⟨run, hexec, hidents⟩ := Option.map_eq_some_iff.mp hrun
  obtain ⟨hidents, hflush⟩ := Prod.mk.inj hidents
  obtain ⟨f, hf, hdone⟩ := Option.map_eq_some_iff.mp hflush
  have hreach : Reachable (Run.start demo) (Run.step demo) anyStep run :=
    Reachable.exec (.start rfl) hexec
  have hfreach : Reachable (Flush.start run.aggregator) (Flush.step demo.cfg)
      (findsWhole demo.cfg) f := Reachable.exec (.start rfl) hf
  have hdrains := (flush_drains (demo.cfg.reducer none) demo.cfg).2.1 _ f hfreach hdone
  exact ⟨run, f, hreach, hfreach, hidents, hdone, hdrains⟩

/-- The records 1 and 2 do not fit together, and the flush takes only one of them. -/
theorem flush_leaves_a_record :
    ∃ run f, Reachable (Run.start smallBatches) (Run.step smallBatches) anyStep run ∧
      Reachable (Flush.start run.aggregator) (Flush.step smallBatches.cfg) undisturbed f ∧
      f.waiting = [] ∧ run.aggregator.idents = [2, 1] ∧ f.aggregator.idents = [1] ∧
      (f.dispatched.flatMap AggregatedBatch.items).map BufferedRecord.ident = [2] := by
  have hrun : (exec (Run.step smallBatches) anyStep { map := ShardMap.init smallBatches.mapCfg }
      ([.put 0 0 (ofSize 0)] ++ settle 0 0 ++ [.put (8 / 100) 1 (ofSize 72)] ++
        settle (8 / 100) 0 ++ [.putBuffered retried] ++ settle (9 / 100) 0)).map
      (fun run => (run.aggregator.idents,
        (exec (Flush.step smallBatches.cfg) undisturbed
          { aggregator := run.aggregator, waiting := run.aggregator.reducers.keys }
          [.next (95 / 1000)]).map fun f => (f.waiting, f.aggregator.idents,
            (f.dispatched.flatMap AggregatedBatch.items).map BufferedRecord.ident))) =
        some ([2, 1], some ([], [1], [2])) := by
    decide +kernel
  obtain ⟨run, hexec, hidents⟩ := Option.map_eq_some_iff.mp hrun
  obtain ⟨hidents, hflush⟩ := Prod.mk.inj hidents
  obtain ⟨f, hf, hout⟩ := Option.map_eq_some_iff.mp hflush
  obtain ⟨hdone, hout⟩ := Prod.mk.inj hout
  obtain ⟨hleft, hdispatched⟩ := Prod.mk.inj hout
  exact ⟨run, f, Reachable.exec (.start rfl) hexec, Reachable.exec (.start rfl) hf, hdone, hidents,
    hleft, hdispatched⟩

end Aggregator

end Aiokpl
