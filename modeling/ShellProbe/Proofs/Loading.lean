import Mathlib
import ShellProbe.Proofs.Comparisons
import ShellProbe.Proofs.Decoding
import ShellProbe.Proofs.Writes

/-!
# Loading the statistics

A file of statistics stops everything only where it is no UTF-8, or where it goes beyond what can be
read at all: a numeral of too many digits, or too many containers inside each other. From any other
file come statistics with all fields (`loads_iff`).
-/

namespace ShellProbe

/-! ## What is beyond reading -/

namespace Json

/-- An error for a text that goes beyond a limit. -/
def ReadError.IsLimit : ReadError → Prop
  | malformed _ => False
  | tooManyDigits _ | tooDeep _ => True

namespace Reader

variable {r : Reader} {t : Token} {e : ReadError}

/-- A value may come next. -/
def Awaits (r : Reader) : Prop := r.want = .value ∨ r.want = .itemOrClose

/-- A numeral of too many digits, or one more container than may be open. -/
def TooMuch (r : Reader) (t : Token) : Prop :=
  (∃ count, t.lexeme = .longNumeral count) ∨
    (t.lexeme = .mark .openArray ∨ t.lexeme = .mark .openObject) ∧ maxDepth ≤ r.containers.length

theorem startValue_isLimit_iff :
    (∃ e, r.startValue t = .error e ∧ e.IsLimit) ↔ r.TooMuch t := by
  obtain ⟨lexeme, start⟩ := t
  unfold startValue TooMuch opened
  rcases lexeme with m | _ | _ | _ | count | _
  · cases m <;> by_cases h : r.containers.length < maxDepth <;> simp [h, ReadError.IsLimit] <;>
      omega
  all_goals simp [ReadError.IsLimit]

theorem readKey_not_isLimit (h : r.readKey t = .error e) : ¬e.IsLimit := by
  unfold readKey at h
  split at h <;> cases h <;> exact id

/-- Where a value is awaited it begins, but that an empty array may end. -/
theorem step_of_awaits (h : r.Awaits) : r.step t = r.startValue t ∨
    t.lexeme = .mark .closeArray ∧ ∃ r', r.step t = .ok r' := by
  obtain ⟨containers, want⟩ := r
  obtain rfl | rfl : want = .value ∨ want = .itemOrClose := h
  · exact .inl rfl
  · obtain ⟨lexeme, start⟩ := t
    rcases lexeme with m | _ | _ | _ | _ | _
    · cases m <;> cases containers <;> first | exact .inl rfl | exact .inr ⟨rfl, _, rfl⟩
    all_goals exact .inl rfl

/-- Where no value is awaited, nothing is too much. -/
theorem step_not_isLimit (hawaits : ¬r.Awaits) (h : r.step t = .error e) : ¬e.IsLimit := by
  unfold step at h
  split at h
  all_goals first
    | exact absurd (.inl ‹_›) hawaits
    | exact absurd (.inr ‹_›) hawaits
    | exact readKey_not_isLimit h
    | cases h <;> exact id

/-- Only a token in the place of a value can be too much. -/
theorem step_isLimit_iff :
    (∃ e, r.step t = .error e ∧ e.IsLimit) ↔ r.Awaits ∧ r.TooMuch t := by
  by_cases hawaits : r.Awaits
  · rw [and_iff_right hawaits]
    obtain hstep | ⟨hclose, r', hstep⟩ := step_of_awaits (t := t) hawaits
    · rw [hstep]
      exact startValue_isLimit_iff
    · refine iff_of_false ?_ (by simp [TooMuch, hclose])
      rw [hstep]
      exact fun ⟨e, he, _⟩ => nomatch he
  · exact iff_of_false (fun ⟨_, he, hlimit⟩ => step_not_isLimit hawaits he hlimit) fun h =>
      hawaits h.1

end Reader

/-- A text that goes beyond a limit of reading before anything is wrong with it. -/
def Overflows (t : Text) : Prop :=
  t.startsWith [.scalar (Char.ofNat 0xFEFF)] = false ∧ ∃ front token rest r,
    tokens t = front ++ token :: rest ∧ front.foldlM Reader.step .initial = .ok r ∧
      r.Awaits ∧ r.TooMuch token

/-- Reading some tokens ends at the first that may not stand where it does. -/
theorem foldlM_step_eq_error_iff {e : ReadError} {ts : List Token} {r : Reader} :
    ts.foldlM Reader.step r = .error e ↔ ∃ front token rest r', ts = front ++ token :: rest ∧
      front.foldlM Reader.step r = .ok r' ∧ r'.step token = .error e := by
  induction ts generalizing r with
  | nil => simp [pure, Except.pure]
  | cons t ts ih =>
    rw [List.foldlM_cons]
    constructor
    · intro h
      rcases hstep : r.step t with e' | r' <;> rw [hstep] at h
      · obtain rfl := Except.error.inj h
        exact ⟨[], t, ts, r, rfl, rfl, hstep⟩
      · obtain ⟨front, token, rest, r'', rfl, hfront, herror⟩ := ih.1 h
        refine ⟨t :: front, token, rest, r'', rfl, ?_, herror⟩
        rw [List.foldlM_cons, hstep]
        exact hfront
    · rintro ⟨_ | ⟨t', front⟩, token, rest, r'', heq, hfront, herror⟩
      · obtain ⟨rfl, rfl⟩ := List.cons.inj heq
        obtain rfl := Except.ok.inj hfront
        rw [herror]
        rfl
      · obtain ⟨rfl, rfl⟩ := List.cons.inj heq
        rw [List.foldlM_cons] at hfront
        rcases hstep : r.step t with e' | r' <;> rw [hstep] at hfront
        · cases hfront
        · exact ih.2 ⟨front, token, rest, r'', rfl, hfront, herror⟩

theorem finish_not_isLimit {stop : Nat} {r : Reader} {e : ReadError}
    (h : r.finish stop = .error e) : ¬e.IsLimit := by
  unfold Reader.finish at h
  split at h <;> cases h
  exact id

theorem read_isLimit_iff (t : Text) : (∃ e, read t = .error e ∧ e.IsLimit) ↔ Overflows t := by
  unfold read Overflows
  by_cases hmark : t.startsWith [.scalar (Char.ofNat 0xFEFF)] = true
  · simp [hmark, ReadError.IsLimit]
  rw [if_neg hmark]
  simp only [Bool.not_eq_true] at hmark
  constructor
  · rintro ⟨e, he, hlimit⟩
    rcases hfold : (tokens t).foldlM Reader.step .initial with e' | r <;> rw [hfold] at he
    · obtain rfl := Except.error.inj he
      obtain ⟨front, token, rest, r, htokens, hfront, hstep⟩ := foldlM_step_eq_error_iff.1 hfold
      obtain ⟨hawaits, hmuch⟩ := Reader.step_isLimit_iff.1 ⟨e', hstep, hlimit⟩
      exact ⟨hmark, front, token, rest, r, htokens, hfront, hawaits, hmuch⟩
    · exact absurd hlimit (finish_not_isLimit he)
  · rintro ⟨-, front, token, rest, r, htokens, hfront, hreader⟩
    obtain ⟨e, hstep, hlimit⟩ := Reader.step_isLimit_iff.2 hreader
    refine ⟨e, ?_, hlimit⟩
    rw [foldlM_step_eq_error_iff.2 ⟨front, token, rest, r, htokens, hfront, hstep⟩]
    rfl

end Json

/-! ## Filling in -/

namespace Members

variable {key : Text} {members pairs : Members}

theorem get?_append (key : Text) (members pairs : Members) :
    get? key (members ++ pairs) = (get? key members).or (get? key pairs) := by
  induction members with
  | nil => rfl
  | cons m members ih =>
    rw [List.cons_append, get?, get?]
    split_ifs
    · rfl
    · exact ih

/-- Filling in what is missing takes nothing away. -/
theorem prefix_foldl_putNew (pairs members : Members) :
    members <+: pairs.foldl (fun members (key, value) => putNew key value members) members := by
  induction pairs generalizing members with
  | nil => exact List.prefix_refl _
  | cons pair pairs ih =>
    refine List.IsPrefix.trans ?_ (ih _)
    simp only [putNew]
    split_ifs
    · exact List.prefix_refl _
    · exact List.prefix_append _ _

theorem get?_foldl_putNew (pairs members : Members) :
    get? key (pairs.foldl (fun members (key, value) => putNew key value members) members)
      = (get? key members).or (get? key pairs) := by
  induction pairs generalizing members with
  | nil => simp [get?]
  | cons pair pairs ih =>
    obtain ⟨k, v⟩ := pair
    rw [List.foldl_cons, ih, get?]
    simp only [putNew]
    by_cases hk : k = key
    · subst hk
      rcases hthere : get? k members with - | value <;> simp [hthere, get?_append, get?]
    · split_ifs
      · rfl
      · simp [get?_append, get?, hk]

end Members

/-! ## Loading -/

namespace Statistics

open Members

variable {now : Moment} {bytes : Bytes}

/-- The names of all fields. -/
def fields : List Text :=
  [startTime, lastUpdateTime, totalRuns, runsWithFindings, targets, modes]

theorem isSome_get?_initial (now : Moment) {field : Text} (h : field ∈ fields) :
    (get? field (initial now)).isSome := by
  have hnodup : fields.Nodup := by decide
  simp only [fields, List.mem_cons, List.not_mem_nil, or_false] at h
  rcases h with rfl | rfl | rfl | rfl | rfl | rfl <;> rfl

/-- What statistics have of their own is kept, and what is missing is filled in. -/
theorem get?_complete (now : Moment) (members : Members) (key : Text) :
    get? key (complete now members) = (get? key members).or (get? key (initial now)) := by
  have hlast : ∀ key, get? key ((initial now).tail ++ [(startTime, Json.string now.text)])
      = get? key (initial now) := fun key => by
    have hne : lastUpdateTime ≠ startTime ∧ totalRuns ≠ startTime ∧ runsWithFindings ≠ startTime ∧
        targets ≠ startTime ∧ modes ≠ startTime := by decide
    obtain ⟨h₁, h₂, h₃, h₄, h₅⟩ := hne
    by_cases hstart : startTime = key
    · subst hstart
      simp [initial, get?, *]
    · simp [initial, get?, hstart]
  rw [complete, get?_foldl_putNew, hlast]

/-- Some bytes are those of a text, which is a value. -/
def Holds (bytes : Bytes) (v : Json) : Prop :=
  ∃ t : Text, t.all (·.scalar?.isSome) ∧ Utf8.encode t = bytes ∧
    Json.read (unifyLineEnds t) = .ok v

/-- Some bytes are those of no text, or of one that goes beyond a limit of reading. -/
def Unloadable (bytes : Bytes) : Prop :=
  (∀ t : Text, t.all (·.scalar?.isSome) → Utf8.encode t ≠ bytes) ∨
    ∃ t : Text, t.all (·.scalar?.isSome) ∧ Utf8.encode t = bytes ∧ Json.Overflows (unifyLineEnds t)

def warningHead : Text := "Warning: Could not load run stats file. Starting fresh. Error: "

/-- The statistics that come of some bytes, and what is said of them. -/
structure LoadedFrom (now : Moment) (bytes : Bytes) (stats : Members) (said : List Text) :
    Prop where
  complete : ∀ field ∈ fields, (get? field stats).isSome
  kept : ∀ members, Holds bytes (.object members) → said = [] ∧ members <+: stats ∧
    ∀ key, get? key stats = (get? key members).or (get? key (initial now))
  fresh : (∀ members, ¬Holds bytes (.object members)) →
    stats = initial now ∧ ∃ reason, said = [warningHead ++ reason]

theorem holds_iff {t : Text} (h : Utf8.decodeStrict bytes = .ok t) (v : Json) :
    Holds bytes v ↔ Json.read (unifyLineEnds t) = .ok v := by
  obtain ⟨hscalars, hencode⟩ := Utf8.decodeStrict_eq_ok_iff.1 h
  refine ⟨?_, fun hread => ⟨t, hscalars, hencode, hread⟩⟩
  rintro ⟨t', hscalars', hencode', hread⟩
  have hdecode := Utf8.decodeStrict_eq_ok_iff.2 ⟨hscalars', hencode'⟩
  obtain rfl := Except.ok.inj (h.symm.trans hdecode)
  exact hread

theorem unloadable_iff {t : Text} (h : Utf8.decodeStrict bytes = .ok t) :
    Unloadable bytes ↔ Json.Overflows (unifyLineEnds t) := by
  have hunique : ∀ {t' : Text}, t'.all (·.scalar?.isSome) → Utf8.encode t' = bytes → t' = t :=
    fun hscalars hencode =>
      Except.ok.inj ((Utf8.decodeStrict_eq_ok_iff.2 ⟨hscalars, hencode⟩).symm.trans h)
  obtain ⟨hscalars, hencode⟩ := Utf8.decodeStrict_eq_ok_iff.1 h
  constructor
  · rintro (hnone | ⟨t', hscalars', hencode', hoverflows⟩)
    · exact absurd hencode (hnone t hscalars)
    · exact hunique hscalars' hencode' ▸ hoverflows
  · exact fun hoverflows => .inr ⟨t, hscalars, hencode, hoverflows⟩

theorem loadedFrom_startFresh (h : ∀ members, ¬Holds bytes (.object members)) (reason : Text) :
    LoadedFrom now bytes (initial now) [warningHead ++ reason] where
  complete _ hfield := isSome_get?_initial now hfield
  kept members hmembers := absurd hmembers (h members)
  fresh _ := ⟨rfl, reason, rfl⟩

theorem loadedFrom_complete {members : Members} (h : Holds bytes (.object members))
    (hunique : ∀ members', Holds bytes (.object members') → members' = members) :
    LoadedFrom now bytes (Statistics.complete now members) [] where
  complete field hfield := by
    rw [get?_complete, Option.isSome_or, isSome_get?_initial now hfield, Bool.or_true]
  kept members' hmembers' := by
    obtain rfl := hunique members' hmembers'
    exact ⟨rfl, prefix_foldl_putNew _ _, get?_complete now _⟩
  fresh hnone := absurd h (hnone members)

/-- Statistics come of all bytes but those that cannot be read, or go beyond a limit of reading. -/
theorem ofBytes_cases (now : Moment) (bytes : Bytes) :
    (Unloadable bytes ∧ ∃ fault, ofBytes now bytes = .error fault) ∨
    ¬Unloadable bytes ∧ ∃ loaded, ofBytes now bytes = .ok loaded ∧
      LoadedFrom now bytes loaded.stats loaded.warning.toList := by
  unfold ofBytes
  rcases hdecode : Utf8.decodeStrict bytes with fault | t
  · refine .inl ⟨.inl fun t hscalars hencode => ?_, _, rfl⟩
    rw [Utf8.decodeStrict_eq_ok_iff.2 ⟨hscalars, hencode⟩] at hdecode
    cases hdecode
  simp only [unloadable_iff hdecode, ← Json.read_isLimit_iff]
  have hholds := holds_iff hdecode
  rcases hread : Json.read (unifyLineEnds t) with e | v
  · have hnone : ∀ members, ¬Holds bytes (.object members) := fun members hmembers => by
      rw [hholds, hread] at hmembers
      cases hmembers
    cases e with
    | malformed fault =>
      exact .inr ⟨by simp [Json.ReadError.IsLimit], _, rfl, loadedFrom_startFresh hnone _⟩
    | tooManyDigits count => exact .inl ⟨⟨_, rfl, trivial⟩, _, rfl⟩
    | tooDeep inObject => exact .inl ⟨⟨_, rfl, trivial⟩, _, rfl⟩
  · have hother : (∀ members, v ≠ .object members) →
        ∀ members, ¬Holds bytes (.object members) := fun hv members hmembers => by
      rw [hholds, hread] at hmembers
      exact hv members (Except.ok.inj hmembers)
    refine .inr ⟨by simp, ?_⟩
    cases v with
    | object members =>
      have hfrom : LoadedFrom now bytes (Statistics.complete now members) [] := by
        refine loadedFrom_complete ((hholds _).2 hread) fun members' hmembers' => ?_
        rw [hholds, hread] at hmembers'
        exact (Json.object.inj (Except.ok.inj hmembers')).symm
      exact ⟨_, rfl, by simpa using hfrom⟩
    | _ => exact ⟨_, rfl, loadedFrom_startFresh (hother (by simp)) _⟩

end Statistics

namespace Explorer

open Session Statistics

variable {w : World} {path : Path} {bytes : Bytes} {executable : Bool}

theorem outcome_loadStatistics (hlog : w.log = none) {loaded : Loaded}
    (hload : load w.clock.now w.disk path = .ok loaded) : outcome (loadStatistics path) w =
      (.ok loaded.stats, { w with
        clock := w.clock.tick
        errors := w.errors ++ Text.ended loaded.warning.toList }) := by
  unfold loadStatistics
  rw [outcome_get_bind, hload]
  simp only [uncaughtIf, pure_bind]
  rw [outcome_modify_bind]
  obtain ⟨stats, - | warning⟩ := loaded
  · simp [Text.ended]
  · simp only [say]
    rw [bind_assoc, outcome_get_bind, hlog]
    dsimp only
    rw [outcome_modify_bind, outcome_pure]
    simp

/-- Loading a file of statistics stops everything exactly if its bytes are of no text, or of one
that goes beyond a limit of reading. From all other bytes come statistics with all fields, the own
ones of the file or new ones, and of those a warning says why. -/
theorem loads_iff (hlog : w.log = none)
    (hfile : w.disk.entry? path.text = some (.file bytes executable)) :
    ((∃ stop, outcome (loadStatistics path) w = (.error stop, w)) ↔ Unloadable bytes) ∧
    ((∃ stats said, outcome (loadStatistics path) w =
        (.ok stats, { w with clock := w.clock.tick, errors := w.errors ++ Text.ended said }) ∧
      LoadedFrom w.clock.now bytes stats said) ↔ ¬Unloadable bytes) := by
  have hload : load w.clock.now w.disk path = ofBytes w.clock.now bytes := by
    have hisFile : w.disk.isFile path.text = .ok true := by rw [Disk.isFile_eq, hfile]
    simp only [load, hisFile, Disk.read_of_entry? hfile]
  obtain ⟨hunloadable, fault, hfault⟩ | ⟨hloadable, loaded, hloaded, hfrom⟩ :=
    ofBytes_cases w.clock.now bytes
  · have hstop : outcome (loadStatistics path) w = (.error (.uncaught (.loading fault)), w) := by
      unfold loadStatistics
      rw [outcome_get_bind, hload, hfault]
      rfl
    refine ⟨iff_of_true ⟨_, hstop⟩ hunloadable, iff_of_false ?_ (not_not_intro hunloadable)⟩
    rintro ⟨stats, said, hok, -⟩
    rw [hstop] at hok
    cases hok
  · have hok := outcome_loadStatistics hlog (hload.trans hloaded)
    refine ⟨iff_of_false ?_ hloadable, iff_of_true ⟨_, _, hok, hfrom⟩ hloadable⟩
    rintro ⟨stop, hstop⟩
    rw [hok] at hstop
    cases hstop

/-- A byte that is no UTF-8, an object that lacks all fields, and a list that is cut off. -/
theorem loads_iff_three :
    let holding (bytes : Bytes) : World :=
      { scriptWorld [] [] with disk := ⟨[(["st"], .file bytes false)], []⟩ }
    let object : Text := "\x7b\"a\":4\x7d"
    (∃ stop, outcome (loadStatistics (.ofText "st")) (holding [0xFF])
      = (.error stop, holding [0xFF])) ∧
    (∃ stats, outcome (loadStatistics (.ofText "st")) (holding (Utf8.encode object))
        = (.ok stats, holding (Utf8.encode object)) ∧
      Members.get? "a" stats = some (.int 4) ∧
      Members.get? totalRuns stats = some (.int 0)) ∧
    ∃ reason, outcome (loadStatistics (.ofText "st")) (holding (Utf8.encode "[1")) =
      (.ok (initial bareWorld.clock.now), { holding (Utf8.encode "[1") with
        errors := warningHead ++ reason ++ [Text.newline] }) := by
  intro holding object
  have hfile : ∀ bytes, (holding bytes).disk.entry? (Path.ofText "st").text
      = some (.file bytes false) := fun bytes => by cbv
  refine ⟨?_, ?_, ?_⟩
  · have hstrict : Utf8.decodeStrict [0xFF] = .error ⟨.invalidStart, 0, 1, 0xFF⟩ := by cbv
    refine (loads_iff rfl (hfile _)).1.2 (.inl fun t hscalars hencode => ?_)
    rw [Utf8.decodeStrict_eq_ok_iff.2 ⟨hscalars, hencode⟩] at hstrict
    cases hstrict
  · have hstrict : Utf8.decodeStrict (Utf8.encode object) = .ok object :=
      Utf8.decodeStrict_eq_ok_iff.2 (by decide)
    have hread : Json.read (unifyLineEnds "\x7b\"a\":4\x7d")
        = .ok (.object [("a", .int 4)]) := by
      with_unfolding_all rfl
    have hloadable : ¬Unloadable (Utf8.encode object) := by
      rw [unloadable_iff hstrict, ← Json.read_isLimit_iff, hread]
      simp
    obtain ⟨stats, said, hok, hfrom⟩ := (loads_iff rfl (hfile _)).2.2 hloadable
    obtain ⟨rfl, -, hget⟩ := hfrom.kept _ ((holds_iff hstrict _).2 hread)
    exact ⟨stats, hok, by rw [hget]; rfl, by rw [hget]; rfl⟩
  · have hstrict : Utf8.decodeStrict (Utf8.encode "[1") = .ok "[1" :=
      Utf8.decodeStrict_eq_ok_iff.2 (by decide)
    have hread : Json.read (unifyLineEnds "[1") = .error (.malformed ⟨.expectedComma, 2⟩) := by
      with_unfolding_all rfl
    have hloadable : ¬Unloadable (Utf8.encode "[1") := by
      rw [unloadable_iff hstrict, ← Json.read_isLimit_iff, hread]
      simp [Json.ReadError.IsLimit]
    obtain ⟨stats, said, hok, hfrom⟩ := (loads_iff rfl (hfile _)).2.2 hloadable
    obtain ⟨rfl, reason, rfl⟩ := hfrom.fresh fun members hholds => by
      rw [holds_iff hstrict, hread] at hholds
      cases hholds
    refine ⟨reason, ?_⟩
    rw [hok, Text.ended_singleton]
    rfl

end Explorer

end ShellProbe
