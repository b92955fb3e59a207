import Aiokpl.ProducerRunning

/-!
# Where the records are

`State.locations` lists every place of every record that the stages and the tasks
hold.  While nothing raises, no call is cancelled and no exit has begun, it lists the
records that have been registered and have not finished, each once.
-/

namespace Aiokpl

open Lib Aggregation

namespace Producer

/-! ## Places -/

/-- Where a record can be: the active batch of a Reducer of the Aggregator, a batch in
    the hands of a task, the queue of a shard, the active batch of the Collector, or a
    batch that is being sent. -/
inductive Place
  | reducer (stream : String) (shardKey : Option ShardId)
  | transit (task : Nat)
  | queue (stream : String) (shardKey : Option ShardId)
  | collector (stream : String)
  | inFlight (task : Nat)
  deriving DecidableEq, Repr

def Work.place (task : Nat) : Work → Place
  | .send _ _ => .inFlight task
  | .inFlight _ _ _ => .inFlight task
  | _ => .transit task

def Pipeline.locations (stream : String) (p : Pipeline) : List (Place × Token) :=
  (p.aggregator.reducers.entries.flatMap fun e =>
    (tokensOf stream e.2.active.items).map (Place.reducer stream e.1, ·)) ++
  (p.limiter.shards.entries.flatMap fun e =>
    (tokensOf stream (e.2.batches.flatMap AggregatedBatch.items)).map
      (Place.queue stream e.1, ·)) ++
  (tokensOf stream (p.collector.active.items.flatMap AggregatedBatch.items)).map
    (Place.collector stream, ·)

def Task.locations (id : Nat) (t : Task) : List (Place × Token) :=
  t.work.flatMap fun w => w.tokens.map (w.place id, ·)

def State.locations (s : State) : List (Place × Token) :=
  (s.shared.pipelines.entries.flatMap fun e => e.2.locations e.1) ++
    s.tasks.entries.flatMap fun e => e.2.locations e.1

/-- The records that have been registered and have not finished. -/
def State.live (s : State) : List Token :=
  s.shared.accepted.filter fun k => k ∉ s.shared.finished

theorem mem_live {s : State} {k : Token} :
    k ∈ s.live ↔ k ∈ s.shared.accepted ∧ k ∉ s.shared.finished := by
  simp [State.live]

theorem map_snd_located (place : Place) (tokens : List Token) :
    (tokens.map (place, ·)).map Prod.snd = tokens := by
  simp

theorem count_pipeline_locations (k : Token) (stream : String) (p : Pipeline) :
    ((p.locations stream).map Prod.snd).count k = p.holds k stream := by
  simp only [Pipeline.locations, List.map_append, List.map_flatMap, map_snd_located,
    List.count_append, List.count_flatMap]
  rfl

theorem count_task_locations (k : Token) (id : Nat) (t : Task) :
    ((t.locations id).map Prod.snd).count k = load (carries k) t.work := by
  simp only [Task.locations, List.map_flatMap, map_snd_located, load_carries]

/-- A record has as many places as the stages and the tasks hold of it. -/
theorem count_locations (k : Token) (s : State) :
    (s.locations.map Prod.snd).count k =
      s.shared.pipelines.total (Pipeline.holds k) + s.weigh (carries k) := by
  simp only [State.locations, List.map_append, List.map_flatMap, List.count_append,
    List.count_flatMap, Function.comp_def, count_pipeline_locations, count_task_locations]
  rfl

variable {maxOutstanding : Nat}

/-- The records that have not finished and those that have. -/
theorem Ledger.live_perm {s : State} (h : Ledger maxOutstanding s) (hs : Sound s) :
    (s.live ++ s.shared.finished).Perm s.shared.accepted := by
  rw [List.perm_iff_count]
  intro k
  have hbalance := h.balance k
  have honce := hs.accepted_count k
  rw [List.count_append]
  by_cases hfinished : k ∈ s.shared.finished
  · have hlive : s.live.count k = 0 :=
      List.count_eq_zero.mpr fun hmem => (mem_live.mp hmem).2 hfinished
    have hpos := List.count_pos_iff.mpr hfinished
    omega
  · have hlive : s.live.count k = s.shared.accepted.count k :=
      List.count_filter (by simpa using hfinished)
    rw [hlive, List.count_eq_zero.mpr hfinished, Nat.add_zero]

theorem Ledger.live_length {s : State} (h : Ledger maxOutstanding s) (hs : Sound s) :
    s.live.length + s.shared.finished.length = s.shared.accepted.length := by
  rw [← (h.live_perm hs).length_eq, List.length_append]

theorem Sound.live_nodup {s : State} (hs : Sound s) : s.live.Nodup :=
  (List.Nodup.of_map Prod.snd hs.accepted).filter _

/-- A record is finished once, and no record is under the number of another. -/
theorem Ledger.finished_nodup {s : State} (h : Ledger maxOutstanding s) (hs : Sound s) :
    (s.shared.finished.map Prod.snd).Nodup := by
  have hids : ((s.live ++ s.shared.finished).map Prod.snd).Nodup :=
    ((h.live_perm hs).map Prod.snd).nodup_iff.mpr hs.accepted
  rw [List.map_append] at hids
  exact (List.nodup_append.mp hids).2.1

/-- What nobody has dropped is where it is held. -/
theorem Ledger.located {s : State} (h : Ledger maxOutstanding s) (hs : Sound s)
    (hdropped : s.shared.dropped = []) : (s.locations.map Prod.snd).Perm s.live := by
  rw [List.perm_iff_count]
  intro k
  have hbalance := h.balance k
  have hcount := (h.live_perm hs).count_eq k
  rw [List.count_append] at hcount
  rw [count_locations]
  simp only [Shared.mass, hdropped, List.count_nil, Nat.add_zero] at hbalance
  omega

/-! ## Conservation -/

/-- Every record that has not finished is in one place, has its entry in `pending` and
    its permit; the others have none of these. -/
structure Conserved (maxOutstanding : Nat) (s : State) : Prop where
  located : (s.locations.map Prod.snd).Perm s.live
  place : ∀ k ∈ s.live, ∃! place, (place, k) ∈ s.locations
  pending : ∀ k, s.shared.pendingAt k = if k ∈ s.live then some k.2 else none
  outstanding : s.shared.outstanding = s.live.length + s.weigh resumed
  bounds : 0 ≤ s.shared.outstanding ∧ s.shared.outstanding ≤ maxOutstanding
  permits : s.shared.permits + s.weigh granted + s.shared.outstanding = maxOutstanding
  released : s.shared.released.Perm (s.shared.finished.map Prod.snd)
  releasedOnce : s.shared.released.Nodup
  resolvedOnce : s.shared.resolved.Nodup

def Op.exits : Op → Bool
  | .exit => true
  | _ => false

/-- No exit begins, no call raises or is cancelled, and no background task raises. -/
def undisturbed (sys : System) (s : State) (op : Op) : Prop :=
  op.exits = false ∧ (s.failing sys op).isNone = true ∧ s.crashes sys op = false

instance (sys : System) (s : State) (op : Op) : Decidable (undisturbed sys s op) :=
  inferInstanceAs (Decidable
    (op.exits = false ∧ (s.failing sys op).isNone = true ∧ s.crashes sys op = false))

theorem ne_exit {op : Op} (h : op.exits = false) : op ≠ .exit := by
  rintro rfl
  cases h

/-- A call that does not fail drops nothing. -/
theorem inHand_of_failing {sys : System} {s : State} {op : Op} (h : s.failing sys op = none) :
    s.inHand op = [] := by
  cases op with
  | cancel id =>
    have hnone : s.tasks.get? id = none := Option.map_eq_none_iff.mp h
    rw [State.inHand, hnone]
    rfl
  | _ => rfl

/-- Undisturbed, a producer drops no record and fails no call. -/
theorem undisturbed_running {sys : System} {s : State}
    (h : Reachable (State.start sys) (State.step sys) (undisturbed sys) s) :
    Running s ∧ s.shared.dropped = [] ∧ s.shared.failed = [] := by
  induction h with
  | start h0 =>
    refine ⟨start_running h0, ?_⟩
    rw [h0]
    exact ⟨rfl, rfl⟩
  | @next s s' op hprev hok hstep ih =>
    obtain ⟨hrunning, hdropped, hfailed⟩ := ih
    have hs := reachable_sound hprev
    have hop := ne_exit hok.1
    have hnone : s.failing sys op = none := Option.isNone_iff_eq_none.mp hok.2.1
    have hcrashed : s'.crashed = false := (crashes_eq hstep).symm.trans hok.2.2
    refine ⟨hrunning.step hs hop hstep, ?_, ?_⟩
    · rw [hrunning.dropped hs (reachable_ordered hprev) hop hstep hcrashed, hdropped,
        inHand_of_failing hnone]
      rfl
    · rw [step_failed hs hstep, hfailed, hnone]
      rfl

/-- **Conservation.**  Whatever the order of calls, timers, drains, replies and
    callbacks, while nothing raises, no call is cancelled and no exit has begun every record
    that has not finished is in one place, and the permits and `_outstanding` count these
    records. -/
theorem records_conserved (sys : System) (s : State)
    (h : Reachable (State.start sys) (State.step sys) (undisturbed sys) s) :
    Conserved sys.cfg.maxOutstandingRecords s := by
  obtain ⟨hs, hledger⟩ := reachable_ledger h
  obtain ⟨_, hdropped, hfailed⟩ := undisturbed_running h
  have hlocated := hledger.located hs hdropped
  have hlength := hledger.live_length hs
  have hpermits := hledger.permits
  have houtstanding := hledger.outstanding
  have hreleased := hledger.released
  simp only [hfailed, lateFailures, failedHolding, List.countP_nil, List.filter_nil, List.map_nil,
    List.append_nil] at hpermits houtstanding hreleased
  constructor
  · exact hlocated
  · intro k hk
    obtain ⟨⟨place, _⟩, hmem, rfl⟩ := List.mem_map.mp (hlocated.mem_iff.mpr hk)
    refine ⟨place, hmem, ?_⟩
    intro place' hmem'
    have honce : (s.locations.map Prod.snd).Nodup := hlocated.nodup_iff.mpr hs.live_nodup
    exact congrArg Prod.fst (List.inj_on_of_nodup_map honce hmem' hmem rfl)
  · intro k
    rw [hledger.pending k]
    simp only [mem_live]
  · omega
  · omega
  · omega
  · exact hreleased
  · exact hreleased.nodup_iff.mpr (hledger.finished_nodup hs)
  · exact hledger.resolvedOnce

/-- A record is put, its caller gives its Outcome up, and it is sent and finished; a
    second one waits in its Reducer. -/
def putsTwo : List Op :=
  .putRecord "a" { partitionKey := "p", data := [] } :: List.replicate 6 (.run 0 {}) ++
    .cancelOutcome 0 :: .flush :: List.replicate 7 (.run 1 {}) ++ .run 3 {} :: takesOne ++
    .putRecord "a" { partitionKey := "q", data := [] } :: List.replicate 5 (.run 4 {})

theorem records_conserved_two :
    ∃ s, Reachable (State.start oneStream) (State.step oneStream) (undisturbed oneStream) s ∧
      s.shared.finished = [("a", 0)] ∧ s.shared.resolved = [0] ∧
      s.locations = [(.reducer "a" none, ("a", 4))] ∧
      Conserved oneStream.cfg.maxOutstandingRecords s := by
  have hrun : (Lib.exec (State.step oneStream) (undisturbed oneStream) entered putsTwo).map
      (fun s => (s.shared.finished, s.shared.resolved, s.locations)) =
        some ([("a", 0)], [0], [(.reducer "a" none, ("a", 4))]) := by
    decide +kernel
  obtain ⟨s, hexec, hout⟩ := Option.map_eq_some_iff.mp hrun
  obtain ⟨hfinished, hrest⟩ := Prod.mk.inj hout
  obtain ⟨hresolved, hlocations⟩ := Prod.mk.inj hrest
  have hreach :
      Reachable (State.start oneStream) (State.step oneStream) (undisturbed oneStream) s :=
    Reachable.exec (.start rfl) hexec
  exact ⟨s, hreach, hfinished, hresolved, hlocations, records_conserved oneStream s hreach⟩

end Producer

end Aiokpl
