import CrowdPad.Proofs.Scheduler.Tally
import CrowdPad.Proofs.Timeline.Firing
import CrowdPad.Proofs.Timeline.Meter

/-! The accounts of a run. Every edge of every batch is still in its lane, or was handed over, refused
or suppressed, whenever the worker was stopped; the tally of a batch says how many of its edges went
which way, and a batch leaves with its tally once no edge of it is left. -/

namespace CrowdPad.Timeline

/-- All batches ever scheduled, as they stand or as they ended. -/
def batches (t : Timeline) : List Batch := t.scheduler.batches ++ t.reports.map (·.2)

/-- The number of edges of a batch that have left their lanes and that a condition picks out. -/
def counted (t : Timeline) (id : Nat) (p : Departure → Bool) : Nat :=
  t.departures.countP fun d => d.edge.batch == id && p d

/-- The number of edges of a batch that were suppressed: the presses that were given up and those of
their releases that are no longer in their lanes. -/
def suppressed (t : Timeline) (b : Batch) : Nat :=
  b.tally.suppressed + (b.tally.suppressed - t.scheduler.owed b.id)

/-- The number of edges of a batch that were handed over, refused or suppressed. -/
def workedOff (t : Timeline) (b : Batch) : Nat :=
  t.counted b.id (·.taken) + t.counted b.id (!·.taken) + t.suppressed b

/-- Whether the tally of a batch says what became of its edges. -/
structure Account (t : Timeline) (b : Batch) : Prop where
  presses : b.tally.presses = t.counted b.id fun d => d.taken && d.edge.isPress
  releases : b.tally.releases = t.counted b.id fun d => d.taken && !d.edge.isPress
  failed : b.tally.failed = t.counted b.id fun d => !d.taken
  edges : t.scheduler.edgesLeft b.id + t.counted b.id (fun _ => true) + 2 * b.tally.suppressed =
    2 * b.requested + t.scheduler.owed b.id
  owed : t.scheduler.owed b.id ≤ b.tally.suppressed

/-- What the accounts of a run rest on: presses and releases keep the books, every batch has an
account, and batches are numbered one after the other. -/
structure Booked (t : Timeline) : Prop where
  paired : t.scheduler.Paired
  held : ∀ q, Scheduler.Coarse q →
    heldAfter? 0 ((t.departed q).map (·.transition)) = some (t.scheduler.heldWhere q)
  accounts : ∀ b ∈ t.batches, t.Account b
  ended : ∀ b ∈ t.reports.map (·.2), t.scheduler.lanesOf b.id = []
  numbers : ∃ n, t.scheduler.nextBatch = n + 1 ∧
    (t.batches.map Batch.id).Perm (List.range' 1 n)

theorem booked_empty : Booked {} where
  paired := Scheduler.paired_empty
  held := fun _ _ => rfl
  accounts := fun _ h => absurd h List.not_mem_nil
  ended := fun _ h => absurd h List.not_mem_nil
  numbers := ⟨0, rfl, List.Perm.refl _⟩

variable {t : Timeline}

/-! ### Settling -/

theorem counted_settle (t : Timeline) (id : Nat) (p : Departure → Bool) :
    t.settle.counted id p = t.counted id p + (t.scheduler.tick t.now t.accepting).2.countP
      fun edge => edge.batch == id && p { time := t.now, edge, taken := t.accepting } := by
  rw [counted, settle, settleAt]
  simp only [List.countP_append, List.countP_map]
  rfl

/-- A batch as a settled timeline has it. -/
def settled (t : Timeline) (b : Batch) : Batch :=
  { b with tally := t.scheduler.tallyAfter t.now t.accepting b }

theorem settled_eq_self {b : Batch} (h : t.scheduler.lanesOf b.id = []) : t.settled b = b := by
  rw [settled, Scheduler.tallyAfter, ← Scheduler.lanesOf, h]
  rfl

theorem Account.settle {b : Batch} (hb : t.Account b) (hpaired : t.scheduler.Paired)
    (h : t.scheduler.Orderly) : t.settle.Account (t.settled b) := by
  have htally := h.tallyAfter_eq t.now t.accepting b
  have hedges := hpaired.edgesLeft_tick h t.now t.accepting b.id
  have howed := hpaired.owed_tick_le h t.now t.accepting b.id
  have hbefore := hb.edges
  have howedBefore := hb.owed
  constructor
  · rw [counted_settle, settled, htally, hb.presses]
  · rw [counted_settle, settled, htally, hb.releases]
  · rw [counted_settle, settled, htally, hb.failed]
  · rw [counted_settle, settled, htally]
    simp only [Bool.and_true]
    show (t.scheduler.tick t.now t.accepting).1.edgesLeft b.id + _ + _ =
      _ + (t.scheduler.tick t.now t.accepting).1.owed b.id
    omega
  · rw [settled, htally]
    show (t.scheduler.tick t.now t.accepting).1.owed b.id ≤ _
    simp only
    omega

theorem reports_settle (t : Timeline) : t.settle.reports.map (·.2) =
    t.reports.map (·.2) ++ (t.scheduler.batches.map t.settled).filter
      fun b => !(t.scheduler.tick t.now t.accepting).1.isWaiting b := by
  have hreports : t.settle.reports = t.reports ++
      ((t.scheduler.tick t.now t.accepting).1.batches.filter
        fun b => !(t.scheduler.tick t.now t.accepting).1.isWaiting b).map
          fun b => (t.now, b) := rfl
  rw [hreports, Scheduler.tick_batches, List.map_append, List.map_map]
  congr 1
  exact List.map_id _

theorem batches_settle (t : Timeline) : t.settle.batches =
    ((t.scheduler.batches.map t.settled).filter
        (t.scheduler.tick t.now t.accepting).1.isWaiting) ++
      (t.reports.map (·.2) ++ (t.scheduler.batches.map t.settled).filter
        fun b => !(t.scheduler.tick t.now t.accepting).1.isWaiting b) := by
  have hactive : t.settle.scheduler.batches =
      (t.scheduler.tick t.now t.accepting).1.batches.filter
        (t.scheduler.tick t.now t.accepting).1.isWaiting := rfl
  rw [batches, hactive, Scheduler.tick_batches, reports_settle]
  rfl

theorem Booked.settle (hbooked : t.Booked) (h : t.Lawful) : t.settle.Booked where
  paired := (hbooked.paired.tick t.now t.accepting).retire
  held := by
    intro q hq
    rw [departed_settle, List.map_append, heldAfter?_append, hbooked.held q hq, Option.bind_some]
    exact hbooked.paired.tick_held h.orderly hq t.now t.accepting
  accounts := by
    have hsettled : ∀ b ∈ t.batches, t.settle.Account (t.settled b) :=
      fun b hb => (hbooked.accounts b hb).settle hbooked.paired h.orderly
    have hactive : ∀ b ∈ t.scheduler.batches.map t.settled, t.settle.Account b := by
      intro b hb
      obtain ⟨before, hbefore, rfl⟩ := List.mem_map.mp hb
      exact hsettled before (List.mem_append_left _ hbefore)
    intro b hb
    rw [batches_settle, List.mem_append, List.mem_append] at hb
    rcases hb with hstays | hover | hends
    · exact hactive b (List.mem_filter.mp hstays).1
    · rw [← settled_eq_self (hbooked.ended b hover)]
      exact hsettled b (List.mem_append_right _ hover)
    · exact hactive b (List.mem_filter.mp hends).1
  ended := by
    intro b hb
    rw [reports_settle, List.mem_append] at hb
    rw [Scheduler.lanesOf, List.filter_eq_nil_iff]
    intro lane hlane
    rcases hb with hover | hends
    · obtain ⟨before, hbefore, rfl⟩ := Scheduler.mem_tick_lanes _ _ t.accepting hlane
      have hnone := hbooked.ended b hover
      rw [Scheduler.lanesOf, List.filter_eq_nil_iff] at hnone
      exact hnone before hbefore
    · have hdone := (List.mem_filter.mp hends).2
      rw [Bool.not_eq_true', Scheduler.isWaiting, List.any_eq_false] at hdone
      exact hdone lane hlane
  numbers := by
    obtain ⟨n, hnext, hperm⟩ := hbooked.numbers
    refine ⟨n, hnext, List.Perm.trans ?_ hperm⟩
    have hids : (t.scheduler.batches.map t.settled).map Batch.id =
        t.scheduler.batches.map Batch.id := by
      rw [List.map_map]
      rfl
    have hsplit := (List.filter_append_perm (t.scheduler.tick t.now t.accepting).1.isWaiting
      (t.scheduler.batches.map t.settled)).map Batch.id
    rw [batches_settle, batches, List.map_append, List.map_append, List.map_append, ← hids]
    rw [List.map_append] at hsplit
    refine List.Perm.trans ?_ (hsplit.append_right _)
    rw [List.append_assoc]
    exact List.perm_append_comm.append_left _

/-! ### Steps -/

theorem Booked.lt_of_mem (hbooked : t.Booked) {b : Batch} (hb : b ∈ t.batches) :
    b.id < t.scheduler.nextBatch := by
  obtain ⟨n, hnext, hperm⟩ := hbooked.numbers
  have hmem := hperm.mem_iff.mp (List.mem_map_of_mem hb)
  rw [List.mem_range'_1] at hmem
  omega

/-- An account stays right while no edge of its batch moves. -/
theorem Account.congr {b : Batch} (hb : t.Account b) {t' : Timeline} (cancelled : Bool)
    (hdepartures : t'.departures = t.departures)
    (hlanes : t'.scheduler.lanesOf b.id = t.scheduler.lanesOf b.id) :
    t'.Account { b with cancelled } := by
  have hcounted : ∀ p, t'.counted b.id p = t.counted b.id p := by
    intro p
    rw [counted, hdepartures, counted]
  have hleft : t'.scheduler.edgesLeft b.id = t.scheduler.edgesLeft b.id := by
    rw [Scheduler.edgesLeft, hlanes, Scheduler.edgesLeft]
  have howed : t'.scheduler.owed b.id = t.scheduler.owed b.id := by
    rw [Scheduler.owed, hlanes, Scheduler.owed]
  constructor
  · exact hb.presses.trans (hcounted _).symm
  · exact hb.releases.trans (hcounted _).symm
  · exact hb.failed.trans (hcounted _).symm
  · show t'.scheduler.edgesLeft b.id + t'.counted b.id _ + _ = _ + t'.scheduler.owed b.id
    rw [hleft, hcounted, howed]
    exact hb.edges
  · show t'.scheduler.owed b.id ≤ _
    rw [howed]
    exact hb.owed

/-- A batch begins with nothing worked off. -/
theorem Lawful.account_new (h : t.Lawful) (requests : List Request) (reference : Time) :
    ({ t with scheduler := (t.scheduler.schedule requests reference).1 } : Timeline).Account
      { id := t.scheduler.nextBatch, requested := requests.length } := by
  have hcounted : ∀ p, ({ t with scheduler := (t.scheduler.schedule requests reference).1 } :
      Timeline).counted t.scheduler.nextBatch p = 0 := by
    intro p
    rw [counted, List.countP_eq_zero]
    intro d hd hcount
    rw [Bool.and_eq_true, beq_iff_eq] at hcount
    have := (h.numbered d hd).1
    omega
  obtain ⟨hleft, howed⟩ := h.orderly.lanesOf_schedule_new requests reference
  constructor
  · exact (hcounted _).symm
  · exact (hcounted _).symm
  · exact (hcounted _).symm
  · rw [hcounted]
    show (t.scheduler.schedule requests reference).1.edgesLeft t.scheduler.nextBatch + 0 + 0 =
      2 * requests.length + (t.scheduler.schedule requests reference).1.owed t.scheduler.nextBatch
    omega
  · exact Nat.le_of_eq howed

theorem Booked.schedule (hbooked : t.Booked) (h : t.Lawful) (requests : List Request)
    (reference : Time) :
    ({ t with scheduler := (t.scheduler.schedule requests reference).1 } : Timeline).Booked := by
  have hlanes : ∀ b ∈ t.batches, (t.scheduler.schedule requests reference).1.lanesOf b.id =
      t.scheduler.lanesOf b.id := by
    intro b hb
    have hne : t.scheduler.nextBatch ≠ b.id := Nat.ne_of_gt (hbooked.lt_of_mem hb)
    rw [Scheduler.lanesOf_schedule, if_neg hne, List.append_nil]
  constructor
  · exact hbooked.paired.schedule requests reference
  · intro q hq
    rw [Scheduler.heldWhere_schedule]
    exact hbooked.held q hq
  · intro b hb
    rcases List.mem_append.mp hb with hactive | hover
    · rcases List.mem_append.mp hactive with hold | hnew
      · have hmem : b ∈ t.batches := List.mem_append_left _ hold
        exact (hbooked.accounts b hmem).congr b.cancelled rfl (hlanes b hmem)
      · rw [List.mem_singleton.mp hnew]
        exact h.account_new requests reference
    · have hmem : b ∈ t.batches := List.mem_append_right _ hover
      exact (hbooked.accounts b hmem).congr b.cancelled rfl (hlanes b hmem)
  · intro b hb
    rw [hlanes b (List.mem_append_right _ hb)]
    exact hbooked.ended b hb
  · obtain ⟨n, hnext, hperm⟩ := hbooked.numbers
    refine ⟨n + 1, congrArg (· + 1) hnext, ?_⟩
    have hids : ({ t with scheduler := (t.scheduler.schedule requests reference).1 } :
        Timeline).batches.map Batch.id = t.scheduler.batches.map Batch.id ++
          ([n + 1] ++ t.reports.map fun report => report.2.id) := by
      rw [batches, Scheduler.schedule, ← hnext]
      simp
    have hbefore : t.batches.map Batch.id =
        t.scheduler.batches.map Batch.id ++ t.reports.map fun report => report.2.id := by
      simp [batches]
    rw [hbefore] at hperm
    rw [hids, List.range'_1_concat, Nat.add_comm 1 n]
    refine (List.perm_append_comm.append_left _).trans ?_
    rw [← List.append_assoc]
    exact hperm.append_right _

theorem Booked.cancelIf (hbooked : t.Booked) (which : Nat → Bool) :
    ({ t with scheduler := t.scheduler.cancelIf which } : Timeline).Booked := by
  constructor
  · exact hbooked.paired.cancelIf which
  · exact hbooked.held
  · intro b hb
    rcases List.mem_append.mp hb with hactive | hover
    · obtain ⟨before, hbefore, rfl⟩ := List.mem_map.mp hactive
      have haccount := hbooked.accounts before (List.mem_append_left _ hbefore)
      split
      · exact haccount.congr true rfl rfl
      · exact haccount.congr before.cancelled rfl rfl
    · have haccount := hbooked.accounts b (List.mem_append_right _ hover)
      exact haccount.congr b.cancelled rfl rfl
  · exact hbooked.ended
  · obtain ⟨n, hnext, hperm⟩ := hbooked.numbers
    refine ⟨n, hnext, (List.Perm.of_eq ?_).trans hperm⟩
    have hids : (t.scheduler.cancelIf which).batches.map Batch.id =
        t.scheduler.batches.map Batch.id := by
      rw [Scheduler.cancelIf, List.map_map]
      refine List.map_congr_left fun b _ => ?_
      rw [Function.comp_apply]
      split <;> rfl
    rw [batches, batches, List.map_append, List.map_append, hids]

/-- The books do not depend on the clock or on the worker. -/
theorem Booked.congr (hbooked : t.Booked) (now : Time) (accepting : Bool) :
    ({ t with now, accepting } : Timeline).Booked where
  paired := hbooked.paired
  held := hbooked.held
  accounts := fun b hb => (hbooked.accounts b hb).congr b.cancelled rfl rfl
  ended := hbooked.ended
  numbers := hbooked.numbers

theorem Booked.step (hbooked : t.Booked) (h : t.Lawful) (σ : Step) : (t.step σ).Booked := by
  apply h.step_keeps σ hbooked
  · exact fun requests reference _ => hbooked.schedule h requests reference
  · exact fun _ => hbooked.cancelIf σ.covers
  · exact fun _ => hbooked.congr t.now false
  · exact fun t h hbooked => hbooked.settle h
  · exact fun t _ _ hsettled => hsettled.congr (t.now + 1) t.accepting

theorem booked_run (steps : List Step) : (run {} steps).Booked :=
  lawful_empty.run_keeps (fun _ => True) (fun _ _ => trivial)
    (fun _ σ h _ hbooked => hbooked.step h σ) booked_empty

/-! ### What the books say -/

theorem counted_add (t : Timeline) (id : Nat) (p q : Departure → Bool) :
    t.counted id (fun d => p d && q d) + t.counted id (fun d => p d && !q d) = t.counted id p := by
  rw [counted, counted, counted]
  induction t.departures with
  | nil => rfl
  | cons d rest ih =>
      simp only [List.countP_cons]
      cases d.edge.batch == id <;> cases p d <;> cases q d <;> simp at ih ⊢ <;> omega

theorem counted_taken (t : Timeline) (id : Nat) :
    t.counted id (·.taken) + t.counted id (!·.taken) = t.counted id fun _ => true := by
  have hsplit := t.counted_add id (fun _ => true) (·.taken)
  simpa only [Bool.true_and] using hsplit

/-- What is left of a batch is what was not worked off. -/
theorem Booked.workedOff_add (hbooked : t.Booked) {b : Batch} (hb : b ∈ t.batches) :
    t.workedOff b + t.scheduler.edgesLeft b.id = 2 * b.requested := by
  have hedges := (hbooked.accounts b hb).edges
  have howed := (hbooked.accounts b hb).owed
  have htaken := t.counted_taken b.id
  rw [workedOff, suppressed]
  omega

theorem Booked.nodup (hbooked : t.Booked) : (t.batches.map Batch.id).Nodup := by
  obtain ⟨n, -, hperm⟩ := hbooked.numbers
  exact hperm.nodup_iff.mpr (List.nodup_range' _)

theorem Booked.edgesLeft_report (hbooked : t.Booked) {b : Batch}
    (hb : b ∈ t.reports.map (·.2)) : t.scheduler.edgesLeft b.id = 0 ∧ t.scheduler.owed b.id = 0 := by
  rw [Scheduler.edgesLeft, Scheduler.owed, hbooked.ended b hb]
  exact ⟨rfl, rfl⟩

theorem Booked.pendingEdges_eq (hbooked : t.Booked) (h : t.Lawful) : t.scheduler.pendingEdges =
    (t.batches.map fun b => 2 * b.requested - t.workedOff b).sum := by
  have hleft : ∀ b ∈ t.batches, 2 * b.requested - t.workedOff b = t.scheduler.edgesLeft b.id := by
    intro b hb
    have := hbooked.workedOff_add hb
    omega
  have hreports : ((t.reports.map (·.2)).map fun b => t.scheduler.edgesLeft b.id).sum = 0 := by
    refine List.sum_eq_zero_iff_forall_eq_nat.mpr fun n hn => ?_
    obtain ⟨b, hb, rfl⟩ := List.mem_map.mp hn
    exact (hbooked.edgesLeft_report hb).1
  have hnodup : (t.scheduler.batches.map Batch.id).Nodup := by
    have hall := hbooked.nodup
    rw [batches, List.map_append] at hall
    exact (List.nodup_append.mp hall).1
  rw [List.map_congr_left hleft, batches, List.map_append, List.sum_append, hreports, Nat.add_zero]
  exact h.orderly.pendingEdges_eq hnodup

/-- Of a batch that is over, as many releases have left as presses. -/
theorem Booked.count_report (hbooked : t.Booked) (h : t.Lawful) {b : Batch}
    (hb : b ∈ t.reports.map (·.2)) :
    t.counted b.id (fun d => d.edge.isPress) = t.counted b.id fun d => !d.edge.isPress := by
  have hcoarse : Scheduler.Coarse fun e => e.batch == b.id := by
    intro e e' hbatch _
    show (e.batch == b.id) = (e'.batch == b.id)
    rw [hbatch]
  have hnone : t.scheduler.bearers (fun e => e.batch == b.id) = [] := by
    rw [List.eq_nil_iff_forall_not_mem]
    intro lane hlane
    obtain ⟨hmem, e, he, hbatch⟩ := Scheduler.mem_bearers.mp hlane
    have howner := (h.orderly.owned lane hmem e he).1
    have hof : lane ∈ t.scheduler.lanesOf b.id :=
      List.mem_filter.mpr ⟨hmem, by rw [← howner]; exact hbatch⟩
    rw [hbooked.ended b hb] at hof
    exact List.not_mem_nil hof
  have hheld := count_of_heldAfter? (hbooked.held _ hcoarse)
  rw [Scheduler.heldWhere_eq_zero hnone, Nat.zero_add, Nat.zero_add] at hheld
  have hcount : ∀ transition, ((t.departed fun e => e.batch == b.id).map (·.transition)).count
      transition = t.counted b.id fun d => d.edge.transition == transition := by
    intro transition
    rw [counted, departed, List.count, List.countP_map, List.countP_filter, List.countP_map]
    refine List.countP_congr fun d _ => ?_
    simp [and_comm]
  rw [hcount, hcount] at hheld
  have hpress : ∀ d : Departure, d.edge.isPress = (d.edge.transition == .press) :=
    fun _ => rfl
  have hrelease : ∀ d : Departure, (!d.edge.isPress) = (d.edge.transition == .release) := by
    intro d
    rw [hpress]
    cases d.edge.transition <;> rfl
  simp only [hpress] at hrelease ⊢
  simp only [hrelease]
  exact hheld

/-- The tally of a batch that is over accounts for all its edges. -/
theorem Booked.tally_report (hbooked : t.Booked) {b : Batch} (hb : b ∈ t.reports.map (·.2)) :
    b.tally.presses + b.tally.releases + b.tally.failed + 2 * b.tally.suppressed =
      2 * b.requested := by
  have haccount := hbooked.accounts b (List.mem_append_right _ hb)
  obtain ⟨hleft, howed⟩ := hbooked.edgesLeft_report hb
  have hedges := haccount.edges
  have htaken := t.counted_taken b.id
  have hdirection := t.counted_add b.id (·.taken) (·.edge.isPress)
  rw [haccount.presses, haccount.releases, haccount.failed]
  omega

/-- None of its edges failed, and every press has its release, if the worker took all edges. -/
theorem Booked.tally_taking (hbooked : t.Booked) (h : t.Lawful) (htaking : t.Taking) {b : Batch}
    (hb : b ∈ t.reports.map (·.2)) : b.tally.failed = 0 ∧ b.tally.presses = b.tally.releases ∧
      b.tally.presses = b.requested - b.tally.suppressed := by
  have haccount := hbooked.accounts b (List.mem_append_right _ hb)
  have hnone : b.tally.failed = 0 := by
    rw [haccount.failed, counted, List.countP_eq_zero]
    intro d hd
    simp [htaking.taken d hd]
  have hall : ∀ p : Departure → Bool, t.counted b.id (fun d => d.taken && p d) =
      t.counted b.id p := by
    intro p
    refine List.countP_congr fun d hd => ?_
    simp [htaking.taken d hd]
  have hsame : b.tally.presses = b.tally.releases := by
    rw [haccount.presses, haccount.releases, hall, hall]
    exact hbooked.count_report h hb
  have hsum := hbooked.tally_report hb
  omega

theorem reports_step (t : Timeline) (σ : Step) : t.reports <+: (t.step σ).reports := by
  have hsettle : ∀ u : Timeline, t.reports <+: u.reports → t.reports <+: u.settle.reports :=
    fun u hu => hu.trans (List.prefix_append u.reports _)
  apply step_keeps (P := fun u => t.reports <+: u.reports) σ (List.prefix_refl _)
  · exact fun _ _ _ => List.prefix_refl _
  · exact fun _ => List.prefix_refl _
  · exact fun _ => List.prefix_refl _
  · exact hsettle
  · exact hsettle

theorem reports_run (t : Timeline) (steps : List Step) : t.reports <+: (t.run steps).reports :=
  List.foldlRecOn (motive := fun u => t.reports <+: u.reports) steps step (List.prefix_refl _)
    fun u hu σ _ => hu.trans (reports_step u σ)

/-- Whenever the clock has been advanced, the batches that are not over have edges left. -/
theorem Lawful.edgesLeft_pos (h : t.Lawful) (ms : Nat) {b : Batch}
    (hb : b ∈ (t.step (.advance ms)).scheduler.batches) :
    0 < (t.step (.advance ms)).scheduler.edgesLeft b.id := by
  have horderly := (h.step (.advance ms)).orderly
  rw [step_advance] at hb horderly ⊢
  have hwaiting := (List.mem_filter.mp hb).2
  rw [Scheduler.isWaiting, List.any_eq_true] at hwaiting
  obtain ⟨lane, hlane, hbatch⟩ := hwaiting
  have hne := List.length_pos_iff.mpr (horderly.ne_nil lane hlane)
  have hof : lane ∈ (t.pass ms).settle.scheduler.lanesOf b.id :=
    List.mem_filter.mpr ⟨hlane, hbatch⟩
  refine Nat.pos_of_ne_zero fun hzero => ?_
  rw [Scheduler.edgesLeft, List.sum_eq_zero_iff_forall_eq_nat] at hzero
  have := hzero _ (List.mem_map_of_mem hof)
  omega

/-- **Accounting.** The number of pending edges is that of all edges less those handed over, refused
and suppressed, and no counter of them ever goes below zero. No number is given to two batches, and
a batch leaves once, with nothing left of it. Its report accounts for all its edges; as long as the
worker is not stopped, none failed and every press has its release. -/
theorem accounting (steps : List Step) :
    let t := run {} steps
    (t.scheduler.pendingEdges = (t.batches.map fun b => 2 * b.requested - t.workedOff b).sum ∧
      (∀ b ∈ t.batches, t.workedOff b ≤ 2 * b.requested) ∧
      (Meter.run {} steps).pending = t.scheduler.pendingEdges) ∧
    (t.scheduler.activeBatches = 0 → t.scheduler.pendingEdges = 0) ∧
    ((∃ n, t.scheduler.nextBatch = n + 1 ∧ (t.batches.map Batch.id).Perm (List.range' 1 n)) ∧
      (∀ more, t.reports <+: (t.run more).reports) ∧
      (∀ b ∈ t.reports.map (·.2), t.workedOff b = 2 * b.requested) ∧
      ∀ ms, ∀ b ∈ (t.step (.advance ms)).scheduler.batches,
        (t.step (.advance ms)).workedOff b < 2 * b.requested) ∧
    ∀ b ∈ t.reports.map (·.2),
      b.tally.presses + b.tally.releases + b.tally.failed + 2 * b.tally.suppressed =
          2 * b.requested ∧
        (Step.stopWorker ∉ steps → b.tally.failed = 0 ∧ b.tally.presses = b.tally.releases ∧
          b.tally.presses = b.requested - b.tally.suppressed) := by
  intro t
  have h : t.Lawful := lawful_empty.run steps
  have hbooked : t.Booked := booked_run steps
  refine ⟨⟨hbooked.pendingEdges_eq h, ?_, Meter.run_pending steps⟩, ?_, ⟨hbooked.numbers, ?_, ?_, ?_⟩,
    ?_⟩
  · intro b hb
    have := hbooked.workedOff_add hb
    omega
  · intro hidle
    rw [Scheduler.pendingEdges, h.orderly.lanes_eq_nil (List.length_eq_zero_iff.mp hidle)]
    rfl
  · exact reports_run t
  · intro b hb
    have hleft := (hbooked.edgesLeft_report hb).1
    have hall := hbooked.workedOff_add (List.mem_append_right _ hb)
    omega
  · intro ms b hb
    have hleft := h.edgesLeft_pos ms hb
    have hall := (hbooked.step h (.advance ms)).workedOff_add (List.mem_append_left _ hb)
    omega
  · exact fun b hb => ⟨hbooked.tally_report hb,
      fun hsteps => hbooked.tally_taking h (taking_empty.run hsteps) hb⟩

/-- Of two taps the second is given up while the first has its key down. -/
theorem accounting_of_cancelled_tap :
    let b : Batch := { id := 1, requested := 2, cancelled := true
                       tally := { presses := 1, releases := 1, suppressed := 1 } }
    b ∈ (run {} [.schedule [tap, { tap with delayMs := 30 }] 0, .advance 10, .cancelAll,
        .advance 50]).reports.map (·.2) ∧
      b.tally.failed = 0 ∧ b.tally.presses = b.tally.releases ∧
        b.tally.presses = b.requested - b.tally.suppressed := by
  intro b
  have hb : b ∈ (run {} [.schedule [tap, { tap with delayMs := 30 }] 0, .advance 10, .cancelAll,
      .advance 50]).reports.map (·.2) := by
    cbv
    exact List.Mem.head _
  exact ⟨hb, ((accounting _).2.2.2 b hb).2 (by decide)⟩

end CrowdPad.Timeline
