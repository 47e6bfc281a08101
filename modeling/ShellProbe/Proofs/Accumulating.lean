import ShellProbe.Proofs.Saving

/-!
# Statistics over many invocations

Runs that are recorded in several batches, each of which takes up what the one before it has saved,
leave statistics that say the same as those of one batch (`inBatches_alike`). Only a count that
takes too many digits to be written ends this, and there are that many runs then.
-/

namespace ShellProbe

namespace Statistics

open Members Json

variable {k : Nat} {stats stats' : Members} {start now : Moment} {run : Run} {runs : List Run}
  {disk : Disk} {path : Path}

/-! ## What runs have come to -/

/-- How many updates there are for some runs. -/
def updateCount (runs : List Run) : Nat :=
  (runs.flatMap fun run => updates run.now run.mode run.report).length

theorem updateCount_append (runs more : List Run) :
    updateCount (runs ++ more) = updateCount runs + updateCount more := by
  rw [updateCount, List.flatMap_append, List.length_append]
  rfl

theorem raisedBy_append (runs more : List Run) (u : Update) :
    raisedBy (runs ++ more) u = raisedBy runs u + raisedBy more u := by
  rw [raisedBy, List.map_append, List.flatMap_append, List.count_append]
  rfl

/-- Statistics that some runs have come to, perhaps by way of a file. -/
structure Reached (start : Moment) (runs : List Run) (stats : Members) : Prop where
  raised : Raised (raisedBy runs) (initial start) stats
  sound : Sound (updateCount runs) stats

theorem reached_initial (start : Moment) : Reached start [] (initial start) :=
  ⟨.refl _, sound_initial start⟩

theorem Run.isPlain_updates (h : run.IsPlain) :
    ∀ u ∈ updates run.now run.mode run.report, u.IsPlain := fun u hu => by
  have hfield : ∀ field ∈ fields, field.IsPlain := fun _ => isPlain_field
  simp only [updates_eq, marks, List.mem_append, List.mem_cons, List.mem_map, List.not_mem_nil,
    or_false] at hu
  rcases hu with ((rfl | hu) | rfl | ⟨r, hr, rfl⟩) | rfl
  · exact hfield totalRuns (by decide)
  · split_ifs at hu
    · cases hu
    · rw [List.mem_singleton.1 hu]
      exact hfield runsWithFindings (by decide)
  · exact ⟨hfield modes (by decide), h.1⟩
  · exact ⟨hfield targets (by decide), h.2 r hr⟩
  · trivial

theorem Reached.recorded (h : Reached start runs stats) (hrun : run.IsPlain) : ∃ stats',
    recorded run.now run.mode stats run.report = .ok stats' ∧
      Reached start (runs ++ [run]) stats' := by
  obtain ⟨stats', hrecorded, hraised⟩ := recorded_raised h.sound.wellFormed run
  refine ⟨stats', hrecorded, ?_, ?_⟩
  · have htrans := h.raised.trans hraised
    have htimes : raisedBy (runs ++ [run])
        = fun u => raisedBy runs u + (marks run.mode run.report).count u := by
      funext u
      rw [raisedBy_append, raisedBy_cons]
      rfl
    rwa [htimes]
  · have hall : applyAll stats (updates run.now run.mode run.report) = (stats', none) := by
      unfold Statistics.recorded record at hrecorded
      split at hrecorded
      · rename_i hall
        rw [hall, Except.ok.inj hrecorded]
      · cases hrecorded
    have hsound := h.sound.applyAll (isKnown_updates _ _ _) (Run.isPlain_updates hrun) hall
    rwa [updateCount_append, updateCount, updateCount, List.flatMap_singleton]

theorem Reached.recordRuns : ∀ {more runs : List Run} {stats : Members}, Reached start runs stats →
    (∀ run ∈ more, run.IsPlain) → ∃ stats',
      recordRuns stats more = .ok stats' ∧ Reached start (runs ++ more) stats'
  | [], runs, stats, h, _ => ⟨stats, rfl, by rwa [List.append_nil]⟩
  | run :: more, runs, stats, h, hplain => by
    obtain ⟨stats', hrun, hreached⟩ := h.recorded (hplain run List.mem_cons_self)
    obtain ⟨stats'', hmore, hreached'⟩ :=
      hreached.recordRuns fun r hr => hplain r (List.mem_cons_of_mem _ hr)
    refine ⟨stats'', ?_, by rwa [List.append_assoc] at hreached'⟩
    rw [Statistics.recordRuns, List.foldlM_cons, hrun]
    exact hmore

/-- The order in which a file has the keys does not matter. -/
theorem Reached.inOrder (h : Reached start runs stats) :
    Reached start runs (Json.inOrder stats) := by
  have hget := get?_inOrder h.sound.storable.keys
  refine ⟨⟨fun field hfield => ?_, fun table htable entries hentries => ?_,
    fun field hcounter htable hlast => ?_⟩, h.sound.inOrder⟩
  · obtain ⟨n, hn⟩ := h.sound.wellFormed.counter field hfield
    rw [hget, ← h.raised.counter field hfield, hn, Option.map_some, sorted_int]
  · obtain ⟨entries', hentries', hkeys⟩ := h.raised.table table htable entries hentries
    refine ⟨Json.inOrder entries', by rw [hget, hentries', Option.map_some, sorted_object], ?_⟩
    intro key
    rw [get?_inOrder (h.sound.storable.get? hentries').keys, ← hkeys]
    rcases hvalue : get? key entries' with - | value
    · rfl
    · obtain ⟨n, rfl⟩ := h.sound.wellFormed.isTable htable hentries' key value hvalue
      rw [Option.map_some, sorted_int]
  · rw [hget, h.raised.other field hcounter htable hlast]
    by_cases hstart : field = startTime
    · subst hstart
      simp [initial, get?, Json.sorted]
    · have hnone : get? field (initial start) = none := by
        simp only [counters, tables, List.mem_cons, List.not_mem_nil, or_false, not_or]
          at hcounter htable
        simp [initial, get?, Ne.symm hstart, Ne.symm hlast, Ne.symm hcounter.1, Ne.symm hcounter.2,
          Ne.symm htable.1, Ne.symm htable.2]
      rw [hnone, Option.map_none]

/-! ## What holds of them -/

/-- Statistics that agree with themselves and have kept the time they were started at. -/
structure Consistent (start : Moment) (stats : Members) : Prop where
  started : get? startTime stats = some (.string start.text)
  counted : ∃ (total found : Int) (entries : Members), get? totalRuns stats = some (.int total) ∧
    get? runsWithFindings stats = some (.int found) ∧ get? modes stats = some (.object entries) ∧
    (entries.map fun m => number (some m.2)).sum = total ∧ found ≤ total

/-- The counts of some things that no thing is left out of add up to how many there are. -/
theorem sum_map_count {keys : List Text} (hkeys : keys.Nodup) (all : List Text)
    (hall : ∀ t ∈ all, t ∈ keys) :
    (keys.map fun key => all.count key).sum = all.length := by
  have hcard := Multiset.sum_count_eq_card (s := keys.toFinset) (m := (all : Multiset Text))
    fun t ht => List.mem_toFinset.2 (hall t ht)
  rw [List.sum_toFinset _ hkeys] at hcard
  simp only [Multiset.coe_count, Multiset.coe_card] at hcard
  -- There are two tests of equality of texts, which agree.
  rwa [lawful_beq_subsingleton List.instBEq instBEqOfDecidableEq]

theorem Reached.consistent (h : Reached start runs stats) : Consistent start stats := by
  obtain ⟨entries, hentries, hkeys⟩ := h.raised.table modes (by decide) [] rfl
  have hnodup := (h.sound.storable.get? hentries).keys
  have hvalue : ∀ m ∈ entries, number (some m.2) = ((runs.map Run.mode).count m.1 : Int) :=
    fun m hm => by
      have hm' := (get?_eq_some_iff hnodup).2 hm
      rw [hkeys, raisedBy_mode, raise, get?] at hm'
      split_ifs at hm'
      rw [← hm']
      simp [number]
  have hsum : (entries.map fun m => number (some m.2)).sum = (runs.length : Int) := by
    have hcounts := sum_map_count hnodup (runs.map Run.mode) fun mode hmode => by
      have hget := hkeys mode
      rw [raisedBy_mode, raise, if_neg (List.count_pos_iff.2 hmode).ne'] at hget
      exact List.mem_map.2 ⟨_, (get?_eq_some_iff hnodup).1 hget, rfl⟩
    rw [List.length_map] at hcounts
    rw [List.map_congr_left hvalue, ← hcounts, List.map_map, Nat.cast_list_sum, List.map_map]
    rfl
  have htotal := h.raised.counter totalRuns (by decide)
  have hfound := h.raised.counter runsWithFindings (by decide)
  have hinitial : get? totalRuns (initial start) = some (.int 0) := rfl
  rw [raisedBy_total, hinitial, raise_int] at htotal
  rw [raisedBy_findings, show get? runsWithFindings (initial start) = some (.int 0) from rfl,
    raise_int] at hfound
  refine ⟨?_, _, _, entries, htotal, hfound, hentries, by rw [hsum, Int.zero_add], ?_⟩
  · rw [h.raised.other startTime (by decide) (by decide) (by decide)]
    rfl
  · have hle := List.length_filter_le (fun r : Report => !r.isClean) (runs.map Run.report)
    rw [List.length_map] at hle
    omega

/-! ## Batches -/

/-- The runs of one invocation, and when it began. -/
structure Batch where
  now : Moment
  runs : List Run

/-- Saves statistics and loads them again. -/
def handOver (path : Path) (now : Moment) (disk : Disk) (stats : Members) :
    Except Explorer.Uncaught (Disk × Members) :=
  match save disk path (.object stats) with
  | ⟨_, _, some fault, _⟩ => .error (.saving fault)
  | ⟨disk, _, none, _⟩ =>
    match load now disk path with
    | .error fault => .error (.loading fault)
    | .ok loaded => .ok (disk, loaded.stats)

/-- Records some runs. -/
def recordBatch (stats : Members) (runs : List Run) : Except Explorer.Uncaught Members :=
  (recordRuns stats runs).mapError .counting

/-- Takes up what was saved, and records another batch. -/
def takeUp (path : Path) (kept : Disk × Members) (batch : Batch) :
    Except Explorer.Uncaught (Disk × Members) := do
  let (disk, stats) ← handOver path batch.now kept.1 kept.2
  return (disk, ← recordBatch stats batch.runs)

/-- The disk and the statistics after some batches, the first of which starts anew. -/
def inBatches (path : Path) (disk : Disk) (start : Moment) (first : List Run)
    (rest : List Batch) : Except Explorer.Uncaught (Disk × Members) := do
  let stats ← recordBatch (initial start) first
  rest.foldlM (takeUp path) (disk, stats)

/-- A count of some runs took too many digits to be written. -/
def Uncountable (runs : List Run) (r : Except Explorer.Uncaught (Disk × Members)) : Prop :=
  ∃ n, r = .error (.saving (.unwritable ⟨n⟩)) ∧ Nat.pow 10 Numeral.maxDigits ≤ updateCount runs

theorem Reached.recordBatch (h : Reached start runs stats) (more : List Run)
    (hplain : ∀ run ∈ more, run.IsPlain) : ∃ stats', recordBatch stats more = .ok stats' ∧
      Reached start (runs ++ more) stats' := by
  obtain ⟨stats', hrecord, hreached⟩ := h.recordRuns hplain
  exact ⟨stats', by rw [Statistics.recordBatch, hrecord]; rfl, hreached⟩

theorem Reached.takeUp (h : Reached start runs stats) (hwritable : disk.Writable path.text)
    (batch : Batch) (hplain : ∀ run ∈ batch.runs, run.IsPlain) :
    (∃ disk' stats', takeUp path (disk, stats) batch = .ok (disk', stats') ∧
      disk'.Writable path.text ∧ Reached start (runs ++ batch.runs) stats') ∨
    Uncountable runs (takeUp path (disk, stats) batch) := by
  obtain ⟨disk', hsave, hwritable', hload⟩ | ⟨disk', n, hsave, hn, hbound⟩ :=
    load_save hwritable h.sound
  · obtain ⟨stats', hrecord, hreached⟩ := h.inOrder.recordBatch batch.runs hplain
    refine .inl ⟨disk', stats', ?_, hwritable', hreached⟩
    have hover : handOver path batch.now disk stats = .ok (disk', Json.inOrder stats) := by
      simp only [handOver, hsave, hload]
    change (handOver path batch.now disk stats).bind _ = _
    rw [hover]
    change (Statistics.recordBatch _ _).bind _ = _
    rw [hrecord]
    rfl
  · refine .inr ⟨n, ?_, (Nat.not_lt.1 fun hlt => ?_).trans hbound⟩
    · have hover : handOver path batch.now disk stats = .error (.saving (.unwritable ⟨n⟩)) := by
        simp only [handOver, hsave]
      change (handOver path batch.now disk stats).bind _ = _
      rw [hover]
      rfl
    · rw [Numeral.isWritable, decide_eq_true hlt] at hn
      cases hn

theorem Reached.batches : ∀ (rest : List Batch) {runs : List Run} {disk : Disk} {stats : Members},
    Reached start runs stats → disk.Writable path.text →
    (∀ run ∈ rest.flatMap Batch.runs, run.IsPlain) →
    (∃ disk' stats', rest.foldlM (Statistics.takeUp path) (disk, stats) = .ok (disk', stats') ∧
      Reached start (runs ++ rest.flatMap Batch.runs) stats') ∨
    Uncountable (runs ++ rest.flatMap Batch.runs)
      (rest.foldlM (Statistics.takeUp path) (disk, stats))
  | [], runs, disk, stats, h, _, _ => .inl ⟨disk, stats, rfl, by simpa using h⟩
  | batch :: rest, runs, disk, stats, h, hwritable, hplain => by
    rw [List.flatMap_cons] at hplain ⊢
    rw [List.foldlM_cons, ← List.append_assoc]
    obtain ⟨disk', stats', hup, hwritable', hreached⟩ | ⟨n, hup, hcount⟩ :=
      h.takeUp hwritable batch fun run hrun => hplain run (List.mem_append_left _ hrun)
    · rw [hup]
      exact hreached.batches rest hwritable' fun run hrun =>
        hplain run (List.mem_append_right _ hrun)
    · refine .inr ⟨n, by rw [hup]; rfl, ?_⟩
      rw [updateCount_append, updateCount_append]
      omega

/-- However runs are cut into batches, what comes of them says the same as one batch of them. -/
theorem inBatches_alike (start : Moment) (first : List Run) (rest : List Batch)
    (hwritable : disk.Writable path.text)
    (hplain : ∀ run ∈ first ++ rest.flatMap Batch.runs, run.IsPlain) :
    (∃ disk' stats, inBatches path disk start first rest = .ok (disk', stats) ∧
      Consistent start stats ∧ ∀ runs : List Run,
        runs.map Run.content = (first ++ rest.flatMap Batch.runs).map Run.content →
        ∃ stats', recordRuns (initial start) runs = .ok stats' ∧ Alike stats stats') ∨
    Uncountable (first ++ rest.flatMap Batch.runs) (inBatches path disk start first rest) := by
  obtain ⟨stats, hfirst, hreached⟩ := (reached_initial start).recordBatch first
    fun run hrun => hplain run (List.mem_append_left _ hrun)
  have hin : inBatches path disk start first rest = rest.foldlM (takeUp path) (disk, stats) := by
    change (recordBatch (initial start) first).bind _ = _
    rw [hfirst]
    rfl
  rw [hin]
  obtain ⟨disk', stats', hrest, hreached'⟩ | huncountable := hreached.batches rest hwritable
    fun run hrun => hplain run (List.mem_append_right _ hrun)
  · refine .inl ⟨disk', stats', hrest, hreached'.consistent, fun runs hcontent => ?_⟩
    have hwell := (sound_initial start).wellFormed
    obtain ⟨stats₁, hrecord, hraised⟩ := recordRuns_raised runs hwell
    rw [raisedBy_perm (.of_eq hcontent)] at hraised
    exact ⟨stats₁, hrecord, hreached'.raised.alike hwell hraised⟩
  · exact .inr huncountable

/-- A target that needs escapes, is not of ASCII and has a stray byte, in two of three
invocations. -/
theorem inBatches_alike_odd :
    let odd : Text := [.scalar '"', .scalar (Char.ofNat 0x1F600), .surrogate 0x480]
    let report : Report := ⟨[⟨none, odd, [], ⟨"s.sh", 1⟩, by decide⟩]⟩
    let start : Moment := ⟨2024, 1, 2, 3, 4, 5, 0⟩
    let later : Moment := ⟨2024, 1, 3, 0, 0, 0, 7⟩
    let disk : Disk := (Explorer.scriptWorld [] []).disk
    let first : List Run := [⟨start, "all", report⟩]
    let rest : List Batch := [⟨later, [⟨later, "none", ⟨[]⟩⟩]⟩, ⟨later, [⟨later, "all", report⟩]⟩]
    disk.Writable (Path.ofText "st.json").text ∧
      (∀ run ∈ first ++ rest.flatMap Batch.runs, run.IsPlain) ∧
      ∃ disk' stats, inBatches (.ofText "st.json") disk start first rest = .ok (disk', stats) ∧
        Consistent start stats ∧ get? totalRuns stats = some (.int 3) ∧
        ∃ entries, get? targets stats = some (.object entries) ∧
          get? odd entries = some (.int 2) := by
  intro odd report start later disk first rest
  have hwritable : disk.Writable (Path.ofText "st.json").text := by
    have hlocate : disk.locateMade true (Path.ofText "st.json").text
        = .ok (.absent ["st.json"]) := by cbv
    refine ⟨["st.json"], disk.put ["st.json"] (.file [] false), ?_, by decide⟩
    rw [Disk.create, hlocate]
    rfl
  have hplain : ∀ run ∈ first ++ rest.flatMap Batch.runs, run.IsPlain := by decide
  refine ⟨hwritable, hplain, ?_⟩
  obtain ⟨disk', stats, hin, hconsistent, halike⟩ | ⟨n, -, hcount⟩ :=
    inBatches_alike start first rest hwritable hplain
  · obtain ⟨stats', hrecord, hsame⟩ := halike _ rfl
    obtain rfl := Except.ok.inj hrecord
    have htotal : get? totalRuns stats = some (.int 3) := (hsame totalRuns (by decide)).int
    obtain ⟨entries, hentries, hkeys⟩ := (hsame targets (by decide)).object
    exact ⟨disk', stats, hin, hconsistent, htotal, entries, hentries, hkeys odd⟩
  · have hfew : updateCount (first ++ rest.flatMap Batch.runs) ≤ Numeral.maxDigits := by decide
    have hpow : ∀ n, ¬Nat.pow 10 n ≤ n := fun _ => Nat.not_le.2 (Nat.lt_pow_self (by decide))
    exact absurd (hcount.trans hfew) (hpow _)

end Statistics

end ShellProbe
