import ShellProbe.Proofs.Walks

/-!
# Files

Disks that are the same but for what files hold are walked alike (`walk_sameBut`), so what is found,
and whether a file can be opened, is the same on both. Opening a file for writing changes nothing
but what its path leads to (`created_of_create`), and making directories takes nothing away
(`extends_makeDirectories`).
-/

namespace ShellProbe

namespace Disk

variable {d d' : Disk} {place q : Location} {entry : Entry}

/-! ## Disks that are the same but for what files hold -/

/-- What is at a place of two disks is the same, but perhaps for what a file holds. -/
def EntryAlike (a b : Option Entry) : Prop :=
  a = b ∨ ∃ c c' x, a = some (.file c x) ∧ b = some (.file c' x)

/-- Two disks are the same but for what files hold, and not even that except at one place. -/
structure SameBut (place : Option Location) (d d' : Disk) : Prop where
  here : d'.here = d.here
  alike : ∀ q, EntryAlike (d.find? q) (d'.find? q)
  away : ∀ q, place ≠ some q → d'.find? q = d.find? q

theorem EntryAlike.symm {a b : Option Entry} (h : EntryAlike a b) : EntryAlike b a := by
  obtain rfl | ⟨c, c', x, ha, hb⟩ := h
  · exact .inl rfl
  · exact .inr ⟨c', c, x, hb, ha⟩

theorem EntryAlike.trans {a b c : Option Entry} (h : EntryAlike a b) (h' : EntryAlike b c) :
    EntryAlike a c := by
  obtain rfl | ⟨s, t, x, ha, hb⟩ := h
  · exact h'
  obtain rfl | ⟨s', t', x', hb', hc⟩ := h'
  · exact .inr ⟨s, t, x, ha, hb⟩
  · rw [hb] at hb'
    simp only [Option.some.injEq, Entry.file.injEq] at hb'
    exact .inr ⟨s, t', x', hb'.2 ▸ ha, hc⟩

/-- Only a file is perhaps not the same. -/
theorem EntryAlike.eq {a b : Option Entry} (h : EntryAlike a b)
    (hfile : ∀ c x, a ≠ some (.file c x)) : b = a := by
  obtain rfl | ⟨c, c', x, ha, -⟩ := h
  · rfl
  · exact absurd ha (hfile c x)

namespace SameBut

variable {p : Option Location}

theorem refl (p : Option Location) (d : Disk) : SameBut p d d :=
  ⟨rfl, fun _ => .inl rfl, fun _ _ => rfl⟩

theorem symm (h : SameBut p d d') : SameBut p d' d :=
  ⟨h.here.symm, fun q => (h.alike q).symm, fun q hq => (h.away q hq).symm⟩

theorem trans {d'' : Disk} (h : SameBut p d d') (h' : SameBut p d' d'') : SameBut p d d'' :=
  ⟨h'.here.trans h.here, fun q => (h.alike q).trans (h'.alike q),
    fun q hq => (h'.away q hq).trans (h.away q hq)⟩

theorem weaken (h : SameBut none d d') (p : Option Location) : SameBut p d d' :=
  ⟨h.here, h.alike, fun q _ => h.away q (by simp)⟩

theorem find?_eq_none (h : SameBut p d d') (hnone : d.find? q = none) : d'.find? q = none := by
  rw [(h.alike q).eq (by simp [hnone]), hnone]

theorem find?_eq_some (h : SameBut p d d') (hfind : d.find? q = some entry)
    (hfile : ∀ c x, entry ≠ .file c x) : d'.find? q = some entry := by
  rw [(h.alike q).eq (by simpa [hfind] using hfile), hfind]

theorem waysIn (h : SameBut p d d') : WaysIn d d' := ⟨h.here, fun q e he hway => by
  refine h.find?_eq_some he fun c x hfile => ?_
  rcases hway with rfl | rfl | ⟨t, rfl⟩ <;> simp at hfile⟩

theorem find?_some (h : SameBut p d d') (hfind : d.find? q = some entry) :
    ∃ e, d'.find? q = some e ∧ EntryAlike (some entry) (some e) := by
  have halike := h.alike q
  rw [hfind] at halike
  obtain heq | ⟨c, c', x, ha, hb⟩ := id halike
  · exact ⟨entry, heq.symm, .inl rfl⟩
  · exact ⟨_, hb, hb ▸ halike⟩

end SameBut

theorem EntryAlike.eq_file {c : Bytes} {x : Bool} {e : Entry}
    (h : EntryAlike (some (.file c x)) (some e)) : ∃ c', e = .file c' x := by
  obtain heq | ⟨c, c', x', ha, hb⟩ := h
  · exact ⟨c, (Option.some.inj heq).symm⟩
  · simp only [Option.some.injEq, Entry.file.injEq] at ha hb
    exact ⟨c', ha.2 ▸ hb⟩

theorem EntryAlike.isLink_iff {e e' : Entry} (h : EntryAlike (some e) (some e')) :
    e'.IsLink ↔ e.IsLink := by
  obtain heq | ⟨c, c', x, ha, hb⟩ := h
  · rw [Option.some.inj heq]
  · rw [Option.some.inj ha, Option.some.inj hb]
    simp [Entry.IsLink]

/-- What a walk has found, as it is on another disk. -/
def Found.on (d : Disk) : Found → Found
  | .present q e => .present q ((d.find? q).getD e)
  | .absent q => .absent q

theorem walk_sameBut {p : Option Location} (h : SameBut p d d') (made : Bool) (links : Nat)
    (place : Location) (pieces : List Text) :
    d'.walk made links place pieces = (d.walk made links place pieces).map (Found.on d') := by
  fun_induction walk d made links place pieces with
  | case1 links place entry hfind =>
    obtain ⟨e, he, -⟩ := h.find?_some hfind
    simp [walk, he, Found.on, Except.map]
  | case2 links place hfind => simp [walk, h.find?_eq_none hfind, Except.map]
  | case3 links place name rest hfind => simp [walk, h.find?_eq_none hfind, Except.map]
  | case4 links place name rest c x hfind =>
    obtain ⟨e, he, halike⟩ := h.find?_some hfind
    obtain ⟨c', rfl⟩ := halike.eq_file
    simp [walk, he, Except.map]
  | case5 links place name rest target hfind =>
    simp [walk, h.find?_eq_some hfind (by simp), Except.map]
  | case6 links place name rest hfind | case7 links place name rest hfind
  | case8 links place name rest hfind =>
    simp [walk, h.find?_eq_some hfind (by simp), Except.map]
  | case9 links place name rest hdir hname ih =>
    simp [walk, h.find?_eq_some hdir (by simp), hname, ih]
  | case10 links place rest hdir hname ih => simp [walk, h.find?_eq_some hdir (by simp), hname, ih]
  | case11 links place name rest hdir hname hne hslash =>
    simp [walk, h.find?_eq_some hdir (by simp), hname, hne, hslash, Except.map]
  | case12 links place name rest hdir hname hne hslash hlong =>
    simp [walk, h.find?_eq_some hdir (by simp), hname, hne, hslash, hlong, Except.map]
  | case13 links place name hdir hname hne hlong hfind hslash =>
    simp [walk, h.find?_eq_some hdir (by simp), hname, hne, hslash, hlong, h.find?_eq_none hfind,
      Found.on, Except.map]
  | case14 links place name rest hdir hname hne hslash hlong hfind hrest =>
    simp [walk, h.find?_eq_some hdir (by simp), hname, hne, hslash, hlong, h.find?_eq_none hfind,
      hrest, Except.map]
  | case15 place name rest hdir hname hne hslash hlong target hfind =>
    simp [walk, h.find?_eq_some hdir (by simp), hname, hne, hslash, hlong,
      h.find?_eq_some hfind (by simp), Except.map]
  | case16 place name rest hdir hname hne hslash hlong target hfind links start ih =>
    simp only [walk, h.find?_eq_some hdir (by simp), hname, hne, hslash, hlong,
      h.find?_eq_some hfind (by simp)]
    exact ih
  | case17 links place name rest hdir hname hne hslash hlong entry hlink hfind ih =>
    obtain ⟨e, he, halike⟩ := h.find?_some hfind
    cases e with
    | link target =>
      obtain ⟨t, ht⟩ := halike.isLink_iff.1 ⟨target, rfl⟩
      exact absurd ht (hlink t)
    | _ => simp [walk, h.find?_eq_some hdir (by simp), hname, hne, hslash, hlong, he, ih]

/-! ## Paths -/

/-- Where the walk along a path starts. -/
def pathStart (d : Disk) (path : Text) : Location := if path.startsWith ['/'] then [] else d.here

variable {made : Bool} {path : Text} {r : Found}

theorem locateMade_eq_ok_iff : d.locateMade made path = .ok r ↔
    path ≠ [] ∧ isLongPath path = false ∧
      d.Reaches made maxLinks (d.pathStart path) (Path.pieces path) r := by
  unfold locateMade
  by_cases hempty : path = []
  · simp [hempty]
  by_cases hlong : isLongPath path = true
  · simp [hempty, hlong]
  · rw [if_neg hempty, if_neg hlong, walk_eq_ok_iff]
    simp [hempty, hlong, pathStart]

theorem locate_of_made (h : d.locateMade true path = .ok r) : d.locate path = .ok r := by
  obtain ⟨hempty, hlong, hreaches⟩ := locateMade_eq_ok_iff.1 h
  exact locateMade_eq_ok_iff.2 ⟨hempty, hlong, hreaches.of_made⟩

theorem find?_of_present (h : d.locateMade made path = .ok (.present q entry)) :
    d.find? q = some entry := (locateMade_eq_ok_iff.1 h).2.2.find.1 entry rfl

theorem find?_of_absent (h : d.locateMade made path = .ok (.absent q)) :
    d.find? q = none ∧ q ≠ [] := (locateMade_eq_ok_iff.1 h).2.2.find.2 rfl

theorem create_of_absent (hnull : hasNull path = false)
    (h : d.locateMade true path = .ok (.absent place)) :
    d.create path = .ok (place, d.put place (.file [] false)) := by
  rw [create, hnull, h]
  rfl

theorem create_of_file {content : Bytes} {x : Bool} (hnull : hasNull path = false)
    (h : d.locateMade true path = .ok (.present place (.file content x))) :
    d.create path = .ok (place, d.put place (.file [] x)) := by
  rw [create, hnull, h]
  rfl

theorem WaysIn.pathStart (h : d.WaysIn d') (path : Text) :
    d'.pathStart path = d.pathStart path := by
  rw [Disk.pathStart, Disk.pathStart, h.here]

theorem WaysIn.locate_present (hways : d.WaysIn d') (h : d.locateMade made path = .ok r)
    (hfind : d'.find? r.place = some entry) (hlink : entry.IsLink → d.find? r.place = some entry) :
    d'.locateMade made path = .ok (.present r.place entry) := by
  obtain ⟨hempty, hlong, hreaches⟩ := locateMade_eq_ok_iff.1 h
  refine locateMade_eq_ok_iff.2 ⟨hempty, hlong, ?_⟩
  rw [hways.pathStart]
  exact hreaches.present hways hfind hlink

theorem SameBut.locateMade {p : Option Location} (h : SameBut p d d') (made : Bool)
    (path : Text) : d'.locateMade made path = (d.locateMade made path).map (Found.on d') := by
  unfold Disk.locateMade
  rw [h.here, walk_sameBut h]
  split_ifs <;> rfl

/-! ## What a path leads to -/

theorem entry?_eq_some_iff : d.entry? path = some entry ↔
    hasNull path = false ∧ ∃ q, d.locate path = .ok (.present q entry) := by
  unfold entry?
  split_ifs with hnull
  · simp [hnull]
  · rcases hfound : d.locate path with e | ⟨q, e⟩ | q <;> simp [hnull]

/-- The error with which a path is not followed to its end, if it says more than that nothing is
there. -/
def refusal? (d : Disk) (path : Text) : Option Errno :=
  if hasNull path then none
  else match d.locate path with
    | .ok _ => none
    | .error e => if e.saysAbsent then none else some e

theorem isFile_eq (d : Disk) (path : Text) :
    d.isFile path = match d.entry? path, d.refusal? path with
      | some (.file ..), _ | some .sealed, _ => .ok true
      | _, some e => .error (.system e path)
      | _, none => .ok false := by
  unfold isFile entry? refusal?
  split_ifs with hnull
  · rfl
  rcases d.locate path with e | ⟨q, e⟩ | q
  · dsimp only
    split_ifs <;> rfl
  · cases e <;> rfl
  · rfl

theorem isReadable_eq (d : Disk) (path : Text) :
    d.isReadable path = match d.entry? path, d.refusal? path with
      | some (.file ..), _ => .ok true
      | some .sealed, _ => .ok false
      | _, some e => .error (.system e path)
      | _, none => .ok false := by
  rw [isReadable, isFile_eq]
  rcases d.entry? path with _ | _ | _ | _ | _ | _ | _ <;> cases d.refusal? path <;> rfl

theorem entry?_of_isFile (h : d.isFile path = .ok true) : ∃ entry, d.entry? path = some entry := by
  rw [isFile_eq] at h
  split at h
  · rename_i hentry
    exact ⟨_, hentry⟩
  · rename_i hentry
    exact ⟨_, hentry⟩
  all_goals simp at h

theorem entry?_of_isReadable (h : d.isReadable path = .ok true) :
    ∃ content x, d.entry? path = some (.file content x) := by
  rw [isReadable_eq] at h
  split at h
  · rename_i hentry
    exact ⟨_, _, hentry⟩
  all_goals simp at h

theorem read_congr (h : d.entry? path = some entry) (h' : d'.entry? path = some entry) :
    d'.read path = d.read path := by
  obtain ⟨hnull, q, hq⟩ := entry?_eq_some_iff.1 h
  obtain ⟨-, q', hq'⟩ := entry?_eq_some_iff.1 h'
  simp only [read, hnull, hq, hq']
  cases entry <;> rfl

theorem read_of_entry? {content : Bytes} {x : Bool} (h : d.entry? path = some (.file content x)) :
    d.read path = .ok content := by
  obtain ⟨hnull, q, hq⟩ := entry?_eq_some_iff.1 h
  simp [read, hnull, hq]

theorem refusal?_eq_some_iff {e : Errno} : d.refusal? path = some e ↔
    hasNull path = false ∧ d.locate path = .error e ∧ e.saysAbsent = false := by
  unfold refusal?
  split_ifs with hnull
  · simp [hnull]
  rcases d.locate path with f | found
  · by_cases hf : f.saysAbsent = true <;> simp only [hf, hnull]
    · simp only [if_true, reduceCtorEq, Except.error.injEq, true_and, false_iff]
      rintro ⟨rfl, he⟩
      simp [hf] at he
    · simp only [Bool.false_eq_true, if_false, Option.some.injEq, Except.error.injEq, true_and]
      exact ⟨fun heq => ⟨heq, by simpa [heq] using hf⟩, And.left⟩
  · simp [hnull]

theorem WaysIn.locate_refused {e : Errno} (h : d.WaysIn d') (he : e.saysAbsent = false)
    (hlocate : d.locate path = .error e) : d'.locate path = .error e := by
  unfold locate locateMade at hlocate ⊢
  rw [h.here]
  split_ifs at hlocate ⊢
  · exact hlocate
  · exact hlocate
  all_goals exact h.walk_refused he hlocate

/-- A path is refused alike where there are the same directories and links. -/
theorem WaysIn.refusal?_eq (h : d.WaysIn d') (h' : d'.WaysIn d) (path : Text) :
    d'.refusal? path = d.refusal? path := by
  refine Option.ext fun e => ?_
  rw [refusal?_eq_some_iff, refusal?_eq_some_iff]
  exact and_congr_right fun _ => and_congr_left fun he =>
    ⟨h'.locate_refused he, h.locate_refused he⟩

theorem EntryAlike.isFile_eq (h : EntryAlike (d.entry? path) (d'.entry? path))
    (hrefusal : d'.refusal? path = d.refusal? path) : d'.isFile path = d.isFile path := by
  rw [Disk.isFile_eq, Disk.isFile_eq, hrefusal]
  obtain heq | ⟨c, c', x, ha, hb⟩ := h
  · rw [heq]
  · rw [ha, hb]

theorem EntryAlike.isReadable_eq (h : EntryAlike (d.entry? path) (d'.entry? path))
    (hrefusal : d'.refusal? path = d.refusal? path) : d'.isReadable path = d.isReadable path := by
  rw [Disk.isReadable_eq, Disk.isReadable_eq, hrefusal]
  obtain heq | ⟨c, c', x, ha, hb⟩ := h
  · rw [heq]
  · rw [ha, hb]

namespace SameBut

variable {p : Option Location}

theorem entryAlike (h : SameBut p d d') (path : Text) :
    EntryAlike (d.entry? path) (d'.entry? path) := by
  unfold entry? Disk.locate
  rw [h.locateMade]
  split_ifs
  · exact .inl rfl
  rcases hlocate : d.locateMade false path with e | ⟨q, e⟩ | q
  · exact .inl rfl
  · obtain ⟨e', he', halike⟩ := h.find?_some (find?_of_present hlocate)
    simpa [Except.map, Found.on, he'] using halike
  · exact .inl rfl

theorem isReadable_eq (h : SameBut p d d') (path : Text) :
    d'.isReadable path = d.isReadable path :=
  (h.entryAlike path).isReadable_eq (h.waysIn.refusal?_eq h.symm.waysIn path)

theorem isCommand_eq (h : SameBut p d d') (path : Text) : d'.isCommand path = d.isCommand path := by
  unfold isCommand
  obtain heq | ⟨c, c', x, ha, hb⟩ := h.entryAlike path
  · rw [heq]
  · rw [ha, hb]

theorem which?_eq (h : SameBut p d d') (searchPath name : Text) :
    d'.which? searchPath name = d.which? searchPath name := by
  unfold which?
  simp only [h.isCommand_eq]

/-- Disks on which even files are the same are walked alike. -/
theorem locateMade_eq (h : SameBut none d d') (made : Bool) (path : Text) :
    d'.locateMade made path = d.locateMade made path := by
  rw [h.locateMade]
  rcases hlocate : d.locateMade made path with e | ⟨q, e⟩ | q
  · rfl
  · simp [Except.map, Found.on, h.away q (by simp), find?_of_present hlocate]
  · rfl

theorem read_eq (h : SameBut none d d') (path : Text) : d'.read path = d.read path := by
  unfold Disk.read Disk.locate
  rw [h.locateMade_eq]

end SameBut

/-- A path leads to what is at some place. -/
def LeadsTo (d : Disk) (path : Text) (place : Location) : Prop :=
  ∃ entry, d.locate path = .ok (.present place entry)

/-! ## Opening and writing -/

/-- What opening a file for writing does: it is emptied, or made. A device stays as it is. -/
structure Created (d : Disk) (path : Text) (place : Location) (d' : Disk) : Prop where
  here : d'.here = d.here
  away : ∀ q, q ≠ place → d'.find? q = d.find? q
  before : ∀ e, d.find? place = some e → (∃ c x, e = .file c x) ∨ e = .sink
  after : (∃ x, d'.find? place = some (.file [] x)) ∨
    d.find? place = some .sink ∧ d'.find? place = some .sink
  leads : d'.LeadsTo path place

theorem created_put {x : Bool} (hne : place ≠ [])
    (hbefore : ∀ e, d.find? place = some e → (∃ c x, e = .file c x) ∨ e = .sink)
    (hlocate : d.locateMade true path = .ok r) (hr : r.place = place) :
    d.Created path place (d.put place (.file [] x)) := by
  subst hr
  have hfind : (d.put r.place (.file [] x)).find? r.place = some (.file [] x) := by
    rw [find?_put, if_pos ⟨rfl, hne⟩]
  have haway : ∀ q, q ≠ r.place → (d.put r.place (.file [] x)).find? q = d.find? q :=
    fun q hq => by rw [find?_put, if_neg fun hand => hq hand.1]
  have hways : d.WaysIn (d.put r.place (.file [] x)) := by
    refine ⟨rfl, fun q e he hway => ?_⟩
    rw [haway, he]
    rintro rfl
    rcases hbefore e he with ⟨c, x, rfl⟩ | rfl <;> simp [Entry.IsWay, Entry.IsLink] at hway
  exact ⟨rfl, haway, hbefore, .inl ⟨x, hfind⟩, .file [] x,
    hways.locate_present (locate_of_made hlocate) hfind
      fun hlink => by simp [Entry.IsLink] at hlink⟩

theorem created_of_create (h : d.create path = .ok (place, d')) : d.Created path place d' := by
  unfold create at h
  split_ifs at h with hnull
  rcases hlocate : d.locateMade true path with e | ⟨q, e⟩ | q
  · simp [hlocate] at h
  · have hfind := find?_of_present hlocate
    have hne : ∀ c x, e = .file c x → q ≠ [] := by
      rintro c x rfl rfl
      simp at hfind
    cases e with
    | directory | closed | link | sealed => simp [hlocate] at h
    | sink =>
      simp only [hlocate, Except.ok.injEq, Prod.mk.injEq] at h
      obtain ⟨rfl, rfl⟩ := h
      exact ⟨rfl, fun _ _ => rfl, fun e he => .inr (by simpa [hfind] using he.symm),
        .inr ⟨hfind, hfind⟩, _, locate_of_made hlocate⟩
    | file c x =>
      simp only [hlocate, Except.ok.injEq, Prod.mk.injEq] at h
      obtain ⟨rfl, rfl⟩ := h
      refine created_put (hne c x rfl) (fun e he => .inl ⟨c, x, ?_⟩) hlocate rfl
      simpa [hfind] using he.symm
  · have hfind := find?_of_absent hlocate
    simp only [hlocate, Except.ok.injEq, Prod.mk.injEq] at h
    obtain ⟨rfl, rfl⟩ := h
    exact created_put hfind.2 (fun e he => by simp [hfind.1] at he) hlocate rfl

namespace Created

variable (h : d.Created path place d')

include h

theorem waysIn : d.WaysIn d' := by
  refine ⟨h.here, fun q e he hway => ?_⟩
  rw [h.away q, he]
  rintro rfl
  rcases h.before e he with ⟨c, x, rfl⟩ | rfl <;> simp [Entry.IsWay, Entry.IsLink] at hway

theorem waysIn_back : d'.WaysIn d := by
  refine ⟨h.here.symm, fun q e he hway => ?_⟩
  rw [← h.away q, he]
  rintro rfl
  rcases h.after with ⟨x, hx⟩ | ⟨-, hx⟩ <;>
    rw [hx, Option.some.injEq] at he <;> subst he <;> simp [Entry.IsWay, Entry.IsLink] at hway

/-- A path that leads elsewhere is not touched. -/
theorem entry?_eq {other : Text} (hother : ¬d'.LeadsTo other place) :
    d'.entry? other = d.entry? other := by
  refine Option.ext fun e => ?_
  rw [entry?_eq_some_iff, entry?_eq_some_iff]
  refine and_congr_right fun _ => ⟨?_, ?_⟩
  · rintro ⟨q, hq⟩
    have hne : q ≠ place := fun heq => hother ⟨e, heq ▸ hq⟩
    have hfind := find?_of_present hq
    have hback : d.find? q = some e := by rw [← h.away q hne, hfind]
    exact ⟨q, h.waysIn_back.locate_present hq hback fun _ => hfind⟩
  · rintro ⟨q, hq⟩
    have hfind := find?_of_present hq
    by_cases hne : q = place
    · have hafter : ∃ e', d'.find? place = some e' ∧ ¬e'.IsLink := by
        rcases h.after with ⟨x, hx⟩ | ⟨-, hx⟩ <;> exact ⟨_, hx, by simp [Entry.IsLink]⟩
      obtain ⟨e', he', hlink⟩ := hafter
      subst hne
      exact absurd ⟨e', h.waysIn.locate_present hq he' fun hl => absurd hl hlink⟩ hother
    · have hthere : d'.find? q = some e := by rw [h.away q hne, hfind]
      exact ⟨q, h.waysIn.locate_present hq hthere fun _ => hfind⟩

end Created

theorem sameBut_writeAt (d : Disk) (place : Location) (offset : Nat) (bytes : Bytes) :
    SameBut (some place) d (d.writeAt place offset bytes) := by
  unfold writeAt
  split
  · rename_i hfind
    refine ⟨rfl, fun q => ?_, fun q hq => ?_⟩
    · rw [find?_put]
      split_ifs with hand
      · exact .inr ⟨_, _, _, hand.1 ▸ hfind, rfl⟩
      · exact .inl rfl
    · rw [find?_put, if_neg fun hand => hq (by rw [hand.1])]
  · exact .refl _ _

/-- What is written to an empty file is all that it holds then. -/
theorem find?_writeAt {x : Bool} (h : d.find? place = some (.file [] x)) (bytes : Bytes) :
    (d.writeAt place 0 bytes).find? place = some (.file bytes x) := by
  have hne : place ≠ [] := by
    rintro rfl
    simp at h
  unfold writeAt
  cases bytes with
  | nil => exact h
  | cons b bytes => simp [h, find?_put, hne]

theorem write_cases {bytes : Bytes} (h : d.write path bytes = .ok d') :
    ∃ place opened, d.Created path place opened ∧ d' = opened.writeAt place 0 bytes := by
  unfold write at h
  rcases hcreate : d.create path with f | ⟨place, opened⟩
  · simp [hcreate, Except.map] at h
  · simp only [hcreate, Except.map, Except.ok.injEq] at h
    exact ⟨place, opened, created_of_create hcreate, h.symm⟩

/-- Two operations have the same result, but for what files hold. -/
def ResultsAlike {ε : Type} (p : Option Location) :
    Except ε (Location × Disk) → Except ε (Location × Disk) → Prop
  | .ok (q, d), .ok (q', d') => q = q' ∧ SameBut p d d'
  | .error f, .error f' => f = f'
  | _, _ => False

theorem ResultsAlike.ok {ε : Type} {p : Option Location} {b : Except ε (Location × Disk)}
    (h : ResultsAlike p (.ok (q, d)) b) : ∃ d', b = .ok (q, d') ∧ SameBut p d d' := by
  rcases b with f | ⟨q', d'⟩
  · exact h.elim
  · obtain ⟨rfl, hsame⟩ := h
    exact ⟨d', rfl, hsame⟩

theorem ResultsAlike.error {ε : Type} {p : Option Location} {b : Except ε (Location × Disk)}
    {f : ε} (h : ResultsAlike p (.error f) b) : b = .error f := by
  rcases b with f' | ⟨q', d'⟩
  · exact congrArg _ (Eq.symm h)
  · exact h.elim

namespace SameBut

variable {p : Option Location}

theorem put (h : SameBut p d d') (place : Location) (entry : Entry) :
    SameBut p (d.put place entry) (d'.put place entry) := by
  refine ⟨h.here, fun q => ?_, fun q hq => ?_⟩
  · rw [find?_put, find?_put]
    split_ifs
    · exact .inl rfl
    · exact h.alike q
  · rw [find?_put, find?_put, h.away q hq]

theorem create (h : SameBut p d d') (path : Text) :
    ResultsAlike p (d.create path) (d'.create path) := by
  unfold Disk.create
  rw [h.locateMade]
  split_ifs
  · rfl
  rcases hlocate : d.locateMade true path with e | ⟨q, e⟩ | q
  · rfl
  · obtain ⟨e', he', halike⟩ := h.find?_some (find?_of_present hlocate)
    simp only [Except.map, Found.on, he', Option.getD_some]
    obtain heq | ⟨c, c', x, ha, hb⟩ := halike
    · obtain rfl := Option.some.inj heq
      cases e with
      | file c x => exact ⟨rfl, h.put _ _⟩
      | sink => exact ⟨rfl, h⟩
      | _ => rfl
    · obtain rfl := Option.some.inj ha
      obtain rfl := Option.some.inj hb
      exact ⟨rfl, h.put _ _⟩
  · exact ⟨rfl, h.put _ _⟩

end SameBut

/-! ## Making directories -/

/-- All that is on a disk is on another. -/
structure Extends (d d' : Disk) : Prop where
  here : d'.here = d.here
  find : ∀ q e, d.find? q = some e → d'.find? q = some e

namespace Extends

theorem refl (d : Disk) : Extends d d := ⟨rfl, fun _ _ h => h⟩

theorem trans {d'' : Disk} (h : Extends d d') (h' : Extends d' d'') : Extends d d'' :=
  ⟨h'.here.trans h.here, fun q e he => h'.find q e (h.find q e he)⟩

theorem waysIn (h : Extends d d') : d.WaysIn d' := ⟨h.here, fun q e he _ => h.find q e he⟩

end Extends

theorem extends_makeIn {name : Text} (h : d.makeIn place name = .ok (q, d')) : Extends d d' := by
  unfold makeIn at h
  split_ifs at h with hclosed hup hlong hsome
  simp only [Except.ok.injEq, Prod.mk.injEq] at h
  obtain ⟨rfl, rfl⟩ := h
  refine ⟨rfl, fun r e he => ?_⟩
  rw [find?_put, if_neg, he]
  rintro ⟨rfl, -⟩
  simp [he] at hsome

theorem extends_makeDirectory {path : Path} (h : d.makeDirectory path = .ok (q, d')) :
    Extends d d' := by
  unfold makeDirectory at h
  split_ifs at h
  split at h
  · simp at h
  · simp at h
  · simp at h
  · rename_i name place hlast hlocate
    rcases hin : d.makeIn place name with f | ⟨made, e⟩
    · simp [hin, Except.mapError] at h
    · simp only [hin, Except.mapError, Except.ok.injEq, Prod.mk.injEq] at h
      exact h.2 ▸ extends_makeIn hin
  · simp at h
  · simp at h

theorem extends_makeDirectories (root : Text) : ∀ (reversed : List Text) (room : Nat) (d : Disk),
    Extends d (makeDirectories root d room reversed).2
  | [], _, d => by
    simp only [makeDirectories]
    exact .refl d
  | _ :: _, 0, d => .refl d
  | name :: above, room + 1, d => by
    have hbelow := extends_makeDirectories root above room d
    simp only [makeDirectories]
    split
    · rename_i hmade
      exact extends_makeDirectory hmade
    · split
      · rename_i hmade
        rwa [hmade] at hbelow
      · rename_i hmade
        rw [hmade] at hbelow
        split
        · rename_i hin
          exact hbelow.trans (extends_makeIn hin)
        · exact hbelow
    · exact .refl d
    · exact .refl d

end Disk

end ShellProbe
