import ShellProbe.Proofs.Obstacles
import ShellProbe.Proofs.Writes

/-!
# A file that nothing else looks at

A walk that does not come by a place leads to the same on disks that differ only in a file there
(`Beside.locateMade_eq`). So such a file changes neither what is read and written elsewhere nor
which command is found, and a run copies its script alike (`copy_beside`).
-/

namespace ShellProbe

namespace Disk

/-! ## Walks that come by a place -/

/-- There is a directory at a place, or one may still be made there. -/
def Passable (d : Disk) (q : Location) : Prop := d.find? q = none ∨ d.find? q = some .directory

/-- A walk comes by a place, whatever is there, perhaps once directories that are missing are
made. -/
inductive ComesBy (d : Disk) (goal : Location) : Nat → Location → List Text → Prop
  | here {links pieces} : ComesBy d goal links goal pieces
  | skip {links place name rest} (hpass : d.Passable place) (hname : Path.isName name = false)
    (h : ComesBy d goal links place rest) : ComesBy d goal links place (name :: rest)
  | up {links place rest} (hpass : d.Passable place)
    (h : ComesBy d goal links place.dropLast rest) :
    ComesBy d goal links place ((".." : Text) :: rest)
  | next {links place name rest} (hpass : d.Passable place) (hname : Path.isName name = true)
    (hne : name ≠ "..") (hgoal : place ++ [name] = goal) :
    ComesBy d goal links place (name :: rest)
  | follow {links place name rest target} (hpass : d.Passable place)
    (hname : Path.isName name = true) (hne : name ≠ "..")
    (hfind : d.find? (place ++ [name]) = some (.link target))
    (h : ComesBy d goal links (linkStart target place) (Path.pieces target ++ rest)) :
    ComesBy d goal (links + 1) place (name :: rest)
  | on {links place name rest} (hpass : d.Passable place) (hname : Path.isName name = true)
    (hne : name ≠ "..") (hnext : d.Passable (place ++ [name]))
    (h : ComesBy d goal links (place ++ [name]) rest) : ComesBy d goal links place (name :: rest)

/-- A disk that lets walks come by no more places than another does. -/
structure Admits (d d' : Disk) : Prop where
  here : d'.here = d.here
  passable : ∀ q, d'.Passable q → d.Passable q
  link : ∀ q target, d'.find? q = some (.link target) → d.find? q = some (.link target)

variable {d d' e : Disk} {goal place q : Location} {path : Text} {made : Bool} {links : Nat}
  {pieces : List Text} {r : Found}

theorem SameBut.admits {p : Option Location} (h : SameBut p d d') : d.Admits d' where
  here := h.here
  passable q hpass := hpass.imp h.symm.find?_eq_none fun hdir =>
    h.symm.find?_eq_some hdir (by simp)
  link q target hlink := h.symm.find?_eq_some hlink (by simp)

theorem Created.admits (h : d.Created path place d') : d.Admits d' := by
  refine ⟨h.here, fun q hpass => ?_, fun q target hlink => ?_⟩
  · by_cases hq : q = place
    · subst hq
      rcases h.after with ⟨x, hx⟩ | ⟨-, hx⟩ <;> simp [Passable, hx] at hpass
    · rwa [Passable, ← h.away q hq]
  · by_cases hq : q = place
    · subst hq
      rcases h.after with ⟨x, hx⟩ | ⟨-, hx⟩ <;> simp [hx] at hlink
    · rwa [← h.away q hq]

theorem ComesBy.of_admits (hadmits : d.Admits e) (h : e.ComesBy goal links place pieces) :
    d.ComesBy goal links place pieces := by
  induction h with
  | here => exact .here
  | skip hpass hname h ih => exact .skip (hadmits.passable _ hpass) hname ih
  | up hpass h ih => exact .up (hadmits.passable _ hpass) ih
  | next hpass hname hne hgoal => exact .next (hadmits.passable _ hpass) hname hne hgoal
  | follow hpass hname hne hfind h ih =>
    exact .follow (hadmits.passable _ hpass) hname hne (hadmits.link _ _ hfind) ih
  | on hpass hname hne hnext h ih =>
    exact .on (hadmits.passable _ hpass) hname hne (hadmits.passable _ hnext) ih

/-- A walk comes no further than to what is no directory. -/
theorem ComesBy.of_not_directory {entry : Entry} (h : d.ComesBy goal links place pieces)
    (hfind : d.find? place = some entry) (hne : entry ≠ .directory) : place = goal := by
  cases h with
  | here => rfl
  | skip hpass | up hpass | next hpass | follow hpass | on hpass =>
    rcases hpass with hnone | hdir
    · rw [hfind] at hnone
      cases hnone
    · rw [hfind] at hdir
      exact absurd (Option.some.inj hdir) hne

/-- A walk comes by where it gets to. -/
theorem Reaches.comesBy (h : d.Reaches made links place pieces r) :
    d.ComesBy r.place links place pieces := by
  induction h with
  | stop => exact .here
  | skip hdir hname h ih => exact .skip (.inr hdir) hname ih
  | up hdir h ih => exact .up (.inr hdir) ih
  | absent hdir hstep => exact .next (.inr hdir) hstep.isName hstep.ne rfl
  | follow hdir hstep hfind h ih => exact .follow (.inr hdir) hstep.isName hstep.ne hfind ih
  | @on links place name rest entry r hdir hstep hfind hlink h ih =>
    by_cases hentry : entry = .directory
    · exact .on (.inr hdir) hstep.isName hstep.ne (.inr (hentry ▸ hfind)) ih
    · obtain ⟨-, rfl⟩ := h.of_not_directory hfind hentry
      exact .next (.inr hdir) hstep.isName hstep.ne rfl

/-- Along plain names and without links a walk comes by no place but those above its end. -/
theorem ComesBy.prefix_of_names (h : d.ComesBy goal links place pieces)
    (hnames : ∀ name ∈ pieces, Path.isName name = true ∧ name ≠ "..")
    (hlink : ∀ front target, front <+: pieces → d.find? (place ++ front) ≠ some (.link target)) :
    ∃ front, front <+: pieces ∧ goal = place ++ front := by
  induction h with
  | here => exact ⟨[], List.nil_prefix, (List.append_nil _).symm⟩
  | skip hpass hname => simpa [hname] using (hnames _ List.mem_cons_self).1
  | up => exact absurd rfl (hnames _ List.mem_cons_self).2
  | @next links place name rest hpass hname hne hgoal => exact ⟨[name], ⟨rest, rfl⟩, hgoal.symm⟩
  | @follow links place name rest target hpass hname hne hfind =>
    exact absurd hfind (hlink [name] target ⟨rest, rfl⟩)
  | @on links place name rest hpass hname hne hnext h ih =>
    obtain ⟨front, hfront, hgoal⟩ := ih (fun n hn => hnames n (List.mem_cons_of_mem _ hn))
      fun front target hfront => by
        have hcons := hlink (name :: front) target (List.cons_prefix_cons.2 ⟨rfl, hfront⟩)
        rwa [List.append_assoc]
    exact ⟨name :: front, List.cons_prefix_cons.2 ⟨rfl, hfront⟩, by
      rw [hgoal, List.append_assoc, List.singleton_append]⟩

/-- A path does not come by a place. -/
def Avoids (d : Disk) (place : Location) (path : Text) : Prop :=
  ¬d.ComesBy place maxLinks (d.pathStart path) (Path.pieces path)

theorem Avoids.of_admits (h : d.Avoids place path) (hadmits : d.Admits e) : e.Avoids place path :=
  fun hcomes => h <| by
    have hstart : d.pathStart path = e.pathStart path := by
      rw [pathStart, pathStart, hadmits.here]
    rw [hstart]
    exact hcomes.of_admits hadmits

theorem Avoids.write {other : Text} {bytes : Bytes} (h : d.Avoids place path)
    (hwrite : d.write other bytes = .ok d') : d'.Avoids place path := by
  obtain ⟨q, e, hcreated, rfl⟩ := write_cases hwrite
  exact (h.of_admits hcreated.admits).of_admits (sameBut_writeAt e q 0 bytes).admits

theorem Avoids.place_ne (h : d.Avoids place path) (hlocate : d.locateMade made path = .ok r) :
    r.place ≠ place := by
  rintro rfl
  exact h (locateMade_eq_ok_iff.1 hlocate).2.2.comesBy

theorem Avoids.not_leadsTo (h : d.Avoids place path) : ¬d.LeadsTo path place := fun ⟨_, he⟩ =>
  h.place_ne he rfl

/-! ## Disks that differ in a file -/

/-- What is at the place of a file that was opened, in front of that and behind it. -/
inductive OpenedAt : Option Entry → Option Entry → Prop
  | made (content) : OpenedAt none (some (.file content false))
  | emptied (content content' executable) :
    OpenedAt (some (.file content executable)) (some (.file content' executable))
  | sink : OpenedAt (some .sink) (some .sink)

/-- Two disks are the same but for a file that was opened on the second. -/
structure Beside (place : Location) (d d' : Disk) : Prop where
  here : d'.here = d.here
  others : (d'.entries.filter fun e => !isSame e.1 place)
    = d.entries.filter fun e => !isSame e.1 place
  opened : OpenedAt (d.find? place) (d'.find? place)

theorem OpenedAt.again {a : Option Entry} {content content' : Bytes} {executable : Bool}
    (h : OpenedAt a (some (.file content executable))) :
    OpenedAt a (some (.file content' executable)) := by
  cases h with
  | made => exact .made _
  | emptied => exact .emptied _ _ _

theorem OpenedAt.command {a b : Option Entry} (h : OpenedAt a b) :
    (∀ c, b = some (.file c true) → ∃ c', a = some (.file c' true)) ∧
      ∀ c, a = some (.file c true) → ∃ c', b = some (.file c' true) := by
  cases h <;> simp

theorem OpenedAt.not_isWay {a b : Option Entry} (h : OpenedAt a b) :
    (∀ e, a = some e → ¬e.IsWay) ∧ ∀ e, b = some e → ¬e.IsWay := by
  cases h <;> simp [Entry.IsWay, Entry.IsLink]

theorem OpenedAt.ne_none {a b : Option Entry} (h : OpenedAt a b) : b ≠ none := by
  cases h <;> simp

/-- Nothing changes its place when something is put in another's. -/
theorem isSame_put (q place : Location) (entry : Entry) (e : Location × Entry) :
    isSame (if isSame e.1 q then (q, entry) else e).1 place = isSame e.1 place := by
  split_ifs with he
  · rw [isSame_eq_true_iff.1 he]
  · rfl

/-- Putting something at a place commutes with leaving another place out. -/
theorem others_put (d : Disk) (hq : q ≠ place) (entry : Entry) :
    ((d.put q entry).entries.filter fun e => !isSame e.1 place)
      = (put ⟨d.entries.filter fun e => !isSame e.1 place, d.here⟩ q entry).entries := by
  have hout : isSame q place = false := by
    rw [← Bool.not_eq_true, isSame_eq_true_iff]
    exact hq
  have hany : ((d.entries.filter fun e => !isSame e.1 place).any fun e => isSame e.1 q)
      = d.entries.any fun e => isSame e.1 q := by
    rw [List.any_filter]
    refine congrArg (List.any d.entries) (funext fun e => ?_)
    by_cases he : isSame e.1 q = true
    · simp [isSame_eq_true_iff.1 he, hout]
    · simp [he]
  unfold put
  dsimp only
  rw [hany]
  split_ifs
  · rw [List.filter_map]
    exact congrArg _ (List.filter_congr fun e _ => congrArg _ (isSame_put q place entry e))
  · simp [hout]

theorem others_put_self (d : Disk) (place : Location) (entry : Entry) :
    ((d.put place entry).entries.filter fun e => !isSame e.1 place)
      = d.entries.filter fun e => !isSame e.1 place := by
  have hself : isSame place place = true := isSame_eq_true_iff.2 rfl
  unfold put
  split_ifs with hany
  · dsimp only
    have hkept : (fun e : Location × Entry => !isSame e.1 place) ∘
        (fun e => if isSame e.1 place then (place, entry) else e) = fun e => !isSame e.1 place :=
      funext fun e => congrArg _ (isSame_put place place entry e)
    rw [List.filter_map, hkept]
    refine (List.map_congr_left fun e he => if_neg fun hsame => ?_).trans (List.map_id _)
    have hout := (List.mem_filter.1 he).2
    rw [hsame] at hout
    cases hout
  · simp [hself]

namespace Beside

variable (h : Beside place d d')

include h

theorem place_ne_nil : place ≠ [] := by
  rintro rfl
  have hopened := h.opened
  rw [find?_nil, find?_nil] at hopened
  cases hopened

theorem find?_eq (hq : q ≠ place) : d'.find? q = d.find? q := by
  by_cases hnil : q = []
  · rw [hnil]
    rfl
  have hfilter : ∀ l : List (Location × Entry), (l.find? fun e => isSame e.1 q)
      = (l.filter fun e => !isSame e.1 place).find? fun e => isSame e.1 q := fun l => by
    rw [List.find?_filter]
    refine congrArg (List.find? · l) (funext fun e => ?_)
    by_cases he : isSame e.1 q = true
    · have hout : isSame e.1 place = false := by
        rw [← Bool.not_eq_true, isSame_eq_true_iff, isSame_eq_true_iff.1 he]
        exact hq
      simp [he, hout]
    · simp [he]
  rw [find?_of_ne_nil hnil, find?_of_ne_nil hnil, hfilter, h.others, ← hfilter]

/-- At the place of the file there is neither a directory nor a link. -/
theorem admits : d.Admits d' := by
  have haway : ∀ {q e}, d'.find? q = some e → e.IsWay → q ≠ place := by
    rintro q e he hway rfl
    exact h.opened.not_isWay.2 e he hway
  refine ⟨h.here, fun q hpass => ?_, fun q target hlink => ?_⟩
  · rcases hpass with hnone | hdir
    · by_cases hq : q = place
      · subst hq
        exact absurd hnone h.opened.ne_none
      · exact .inl (h.find?_eq hq ▸ hnone)
    · exact .inr (h.find?_eq (haway hdir (.inl rfl)) ▸ hdir)
  · exact h.find?_eq (haway hlink (.inr (.inr ⟨target, rfl⟩))) ▸ hlink

theorem waysIn : d.WaysIn d' := by
  refine ⟨h.here, fun q e he hway => ?_⟩
  rw [h.find?_eq, he]
  rintro rfl
  exact h.opened.not_isWay.1 e he hway

theorem waysIn_back : d'.WaysIn d := by
  refine ⟨h.here.symm, fun q e he hway => ?_⟩
  rw [← h.find?_eq, he]
  rintro rfl
  exact h.opened.not_isWay.2 e he hway

/-! ### Changes -/

theorem put (hq : q ≠ place) (entry : Entry) : Beside place (d.put q entry) (d'.put q entry) := by
  refine ⟨h.here, ?_, ?_⟩
  · rw [others_put d' hq, others_put d hq, h.others]
    rfl
  · rw [find?_put, find?_put, if_neg fun hand => hq hand.1.symm, if_neg fun hand => hq hand.1.symm]
    exact h.opened

/-- What is written to the file itself makes no difference. -/
theorem writeAt_self (offset : Nat) (bytes : Bytes) :
    Beside place d (d'.writeAt place offset bytes) := by
  unfold Disk.writeAt
  split
  · rename_i content executable hfind
    refine ⟨h.here, (others_put_self _ _ _).trans h.others, ?_⟩
    have hopened := h.opened
    rw [hfind] at hopened
    rw [find?_put, if_pos ⟨rfl, h.place_ne_nil⟩]
    exact hopened.again
  · exact h

theorem writeAt (hq : q ≠ place) (offset : Nat) (bytes : Bytes) :
    Beside place (d.writeAt q offset bytes) (d'.writeAt q offset bytes) := by
  unfold Disk.writeAt
  rw [h.find?_eq hq]
  split
  · exact h.put hq _
  · exact h

/-! ### Paths -/

theorem walk_eq (hcomes : ¬d.ComesBy place links q pieces) :
    d'.walk made links q pieces = d.walk made links q pieces := by
  have at_ : ∀ {links q pieces}, ¬d.ComesBy place links q pieces → d'.find? q = d.find? q :=
    fun hcomes => h.find?_eq fun heq => hcomes (heq ▸ .here)
  have next : ∀ {links q name rest}, ¬d.ComesBy place links q (name :: rest) →
      d.find? q = some .directory → ¬(!Path.isName name) = true → name ≠ ".." →
        d'.find? (q ++ [name]) = d.find? (q ++ [name]) := fun hcomes hdir hname hne =>
    h.find?_eq fun heq => hcomes (.next (.inr hdir) (by simpa using hname) hne heq)
  fun_induction walk d made links q pieces with
  | case1 links q entry hfind => simp [walk, at_ hcomes, hfind]
  | case2 links q hfind => simp [walk, at_ hcomes, hfind]
  | case3 links q name rest hfind => simp [walk, at_ hcomes, hfind]
  | case4 links q name rest c x hfind => simp [walk, at_ hcomes, hfind]
  | case5 links q name rest t hfind => simp [walk, at_ hcomes, hfind]
  | case6 links q name rest hfind => simp [walk, at_ hcomes, hfind]
  | case7 links q name rest hfind => simp [walk, at_ hcomes, hfind]
  | case8 links q name rest hfind => simp [walk, at_ hcomes, hfind]
  | case9 links q name rest hdir hname ih =>
    have hrest := ih fun hrest => hcomes (.skip (.inr hdir) (by simpa using hname) hrest)
    simp [walk, at_ hcomes, hdir, hname, hrest]
  | case10 links q rest hdir hname ih =>
    have hrest := ih fun hrest => hcomes (.up (.inr hdir) hrest)
    simp [walk, at_ hcomes, hdir, hname, hrest]
  | case11 links q name rest hdir hname hne hslash =>
    simp [walk, at_ hcomes, hdir, hname, hne, hslash]
  | case12 links q name rest hdir hname hne hslash hlong =>
    simp [walk, at_ hcomes, hdir, hname, hne, hslash, hlong]
  | case13 links q name hdir hname hne hlong hfind hslash =>
    simp [walk, at_ hcomes, hdir, hname, hne, hslash, hlong, next hcomes hdir hname hne, hfind]
  | case14 links q name rest hdir hname hne hslash hlong hfind hrest =>
    simp [walk, at_ hcomes, hdir, hname, hne, hslash, hlong, next hcomes hdir hname hne, hfind,
      hrest]
  | case15 q name rest hdir hname hne hslash hlong target hfind =>
    simp [walk, at_ hcomes, hdir, hname, hne, hslash, hlong, next hcomes hdir hname hne, hfind]
  | case16 q name rest hdir hname hne hslash hlong target hfind links start ih =>
    have hrest := ih fun hrest =>
      hcomes (.follow (.inr hdir) (by simpa using hname) hne hfind hrest)
    simp only [walk, at_ hcomes, hdir, hname, hne, hslash, hlong, next hcomes hdir hname hne, hfind]
    exact hrest
  | case17 links q name rest hdir hname hne hslash hlong entry hlink hfind ih =>
    have hrest := ih fun hrest => by
      by_cases hentry : entry = .directory
      · exact hcomes (.on (.inr hdir) (by simpa using hname) hne (.inr (hentry ▸ hfind)) hrest)
      · have hgoal := hrest.of_not_directory hfind hentry
        exact hcomes (.next (.inr hdir) (by simpa using hname) hne hgoal)
    cases entry with
    | link target => exact absurd rfl (hlink target)
    | _ =>
      simp [walk, at_ hcomes, hdir, hname, hne, hslash, hlong, next hcomes hdir hname hne, hfind,
        hrest]

theorem locateMade_eq (havoids : d.Avoids place path) :
    d'.locateMade made path = d.locateMade made path := by
  unfold locateMade
  rw [h.here]
  split_ifs <;> first | rfl | exact h.walk_eq (by simpa [Avoids, pathStart, *] using havoids)

theorem entry?_eq (havoids : d.Avoids place path) : d'.entry? path = d.entry? path := by
  unfold entry? Disk.locate
  rw [h.locateMade_eq havoids]

theorem isFile_eq (havoids : d.Avoids place path) : d'.isFile path = d.isFile path := by
  unfold isFile Disk.locate
  rw [h.locateMade_eq havoids]

theorem isReadable_eq (havoids : d.Avoids place path) :
    d'.isReadable path = d.isReadable path := by
  unfold isReadable
  rw [h.isFile_eq havoids, h.entry?_eq havoids]

theorem read_eq (havoids : d.Avoids place path) : d'.read path = d.read path := by
  unfold Disk.read Disk.locate
  rw [h.locateMade_eq havoids]

/-- A file is created, or refused, alike. -/
theorem create (havoids : d.Avoids place path) :
    (∃ f, d.create path = .error f ∧ d'.create path = .error f) ∨
      ∃ q e e', q ≠ place ∧ d.create path = .ok (q, e) ∧ d'.create path = .ok (q, e') ∧
        Beside place e e' := by
  unfold Disk.create
  rw [h.locateMade_eq havoids]
  split_ifs
  · exact .inl ⟨_, rfl, rfl⟩
  rcases hlocate : d.locateMade true path with e | ⟨q, e⟩ | q
  · exact .inl ⟨_, rfl, rfl⟩
  · have hne : q ≠ place := havoids.place_ne hlocate
    cases e with
    | file c x => exact .inr ⟨q, _, _, hne, rfl, rfl, h.put hne _⟩
    | sink => exact .inr ⟨q, _, _, hne, rfl, rfl, h⟩
    | _ => exact .inl ⟨_, rfl, rfl⟩
  · have hne : q ≠ place := havoids.place_ne hlocate
    exact .inr ⟨q, _, _, hne, rfl, rfl, h.put hne _⟩

theorem write (havoids : d.Avoids place path) (bytes : Bytes) :
    (∃ f, d.write path bytes = .error f ∧ d'.write path bytes = .error f) ∨
      ∃ e e', d.write path bytes = .ok e ∧ d'.write path bytes = .ok e' ∧ Beside place e e' := by
  unfold Disk.write
  obtain ⟨f, hf, hf'⟩ | ⟨q, e, e', hne, he, he', hbeside⟩ := h.create havoids
  · exact .inl ⟨f, by rw [hf]; rfl, by rw [hf']; rfl⟩
  · exact .inr ⟨_, _, by rw [he]; rfl, by rw [he']; rfl, hbeside.writeAt hne 0 bytes⟩

/-- Whether a path leads to a command does not even change where it leads to the file. -/
theorem isCommand_eq (path : Text) : d'.isCommand path = d.isCommand path := by
  have hiff : ∀ b : Disk, b.isCommand path = true ↔
      ∃ c, b.entry? path = some (.file c true) := fun b => by
    unfold isCommand
    rcases b.entry? path with - | e
    · simp
    · cases e <;> simp
  have hsome : ∀ {a b : Disk}, a.WaysIn b →
      (∀ q c, a.find? q = some (.file c true) → ∃ c', b.find? q = some (.file c' true)) →
        a.isCommand path = true → b.isCommand path = true := by
    intro a b hways hfiles hcommand
    obtain ⟨c, hentry⟩ := (hiff a).1 hcommand
    obtain ⟨hnull, q, hlocate⟩ := entry?_eq_some_iff.1 hentry
    obtain ⟨c', hc'⟩ := hfiles q c (find?_of_present hlocate)
    exact (hiff b).2 ⟨c', entry?_eq_some_iff.2 ⟨hnull, q, hways.locate_present (r := .present q _)
      hlocate hc' fun hlink => by simp [Entry.IsLink] at hlink⟩⟩
  refine Bool.eq_iff_iff.2
    ⟨hsome h.waysIn_back fun q c hfind => ?_, hsome h.waysIn fun q c hfind => ?_⟩
  · by_cases hq : q = place
    · have hopened := h.opened
      rw [← hq, hfind] at hopened
      exact hopened.command.1 c rfl
    · exact ⟨c, by rwa [← h.find?_eq hq]⟩
  · by_cases hq : q = place
    · have hopened := h.opened
      rw [← hq, hfind] at hopened
      exact hopened.command.2 c rfl
    · exact ⟨c, by rwa [h.find?_eq hq]⟩

theorem which?_eq (searchPath name : Text) :
    d'.which? searchPath name = d.which? searchPath name := by
  unfold which?
  simp only [h.isCommand_eq]

end Beside

/-- Opening a file makes no difference besides. -/
theorem beside_of_create (h : d.create path = .ok (place, d')) : Beside place d d' := by
  unfold create at h
  split_ifs at h
  rcases hlocate : d.locateMade true path with e | ⟨q, e⟩ | q <;> rw [hlocate] at h
  · cases h
  · have hfind := find?_of_present hlocate
    cases e with
    | file c x =>
      obtain ⟨rfl, rfl⟩ := Prod.mk.inj (Except.ok.inj h)
      have hne : q ≠ [] := fun hnil => by simp [hnil] at hfind
      refine ⟨rfl, others_put_self _ _ _, ?_⟩
      rw [find?_put, if_pos ⟨rfl, hne⟩, hfind]
      exact .emptied _ _ _
    | sink =>
      obtain ⟨rfl, rfl⟩ := Prod.mk.inj (Except.ok.inj h)
      refine ⟨rfl, rfl, ?_⟩
      rw [hfind]
      exact .sink
    | _ => cases h
  · obtain ⟨hfind, hne⟩ := find?_of_absent hlocate
    obtain ⟨rfl, rfl⟩ := Prod.mk.inj (Except.ok.inj h)
    refine ⟨rfl, others_put_self _ _ _, ?_⟩
    rw [find?_put, if_pos ⟨rfl, hne⟩, hfind]
    exact .made _

/-- A file is at the same place whatever is added to the disk. -/
theorem Extends.locate_eq (hext : Extends d d') (h : d.isReadable path = .ok true) :
    d'.locate path = d.locate path := by
  obtain ⟨c, x, hentry⟩ := entry?_of_isReadable h
  obtain ⟨-, q, hlocate⟩ := entry?_eq_some_iff.1 hentry
  have hfind := find?_of_present hlocate
  rw [hlocate]
  exact hext.waysIn.locate_present (r := .present q _) hlocate (hext.find _ _ hfind) fun _ => hfind

end Disk

namespace Explorer

open Disk

variable {w w' : World} {place : Location} {d d' : Disk} {work : Location} {script : Text}

theorem Fresh.beside (h : Fresh work d) (hbeside : Beside place d d') (hout : ¬work <+: place) :
    Fresh work d' where
  ne := h.ne
  plain := h.plain
  above front hfront hne := hbeside.waysIn.find _ _ (h.above front hfront hne) (.inl rfl)
  below q hq := by
    rw [hbeside.find?_eq fun heq => hout (heq ▸ hq), h.below q hq]

/-- The copy of a script is made in the directory of the run. -/
theorem avoids_copyPath (h : Fresh w.work w.disk) (hout : ¬w.work <+: place) (hne : place ≠ [])
    (hway : ∀ e, (layOut w).find? place = some e → ¬e.IsWay) (source : Location) (script : Text) :
    (layOut w).Avoids place
      ((copiesPath w).below (Instrument.copyName source (.ofText script))).text := by
  have hplain := names_copy_plain h source script
  have hbelow := work_prefix_copy w (Instrument.copyName source (.ofText script))
  rw [show (copiesPath w).below _ = ⟨"/", (copiesPath w).names ++ [_]⟩ from rfl] at *
  generalize Instrument.copyName source (.ofText script) = name at *
  have hnames : (copiesPath w).names ++ [name] ≠ [] := by simp
  intro hcomes
  rw [pathStart, if_pos (startsWith_text _), pieces_text (fun n hn => (hplain n hn).2.2) hnames]
    at hcomes
  have hdown : (layOut w).ComesBy place maxLinks [] ((copiesPath w).names ++ [name]) := by
    cases hcomes with
    | here => exact absurd rfl hne
    | skip _ _ hrest => exact hrest
    | next _ hname | follow _ hname | on _ hname => exact absurd hname (by decide)
  obtain ⟨front, hfront, hplace⟩ := hdown.prefix_of_names
    (fun n hn => ⟨(hplain n hn).1, (hplain n hn).2.1⟩)
    fun front target hfront => find?_layOut_ne_link h hfront
  rw [List.nil_append] at hplace
  subst hplace
  rcases List.prefix_concat_iff.1 hfront with rfl | hfront
  · exact hout hbelow
  · exact hway _ (find?_layOut_above h hfront) (.inl rfl)

theorem beside_layOut (h : Beside place w.disk w'.disk) (hwork : w'.work = w.work)
    (hout : ¬w.work <+: place) : Beside place (layOut w) (layOut w') := by
  have hne : ∀ {q}, w.work <+: q → q ≠ place := fun hq heq => hout (heq ▸ hq)
  have hpaths : (copiesPath w').names = (copiesPath w).names ∧
      (emptyPath w').names = (emptyPath w).names := by
    simp only [copiesPath, emptyPath, workPath, hwork, and_self]
  unfold layOut
  rw [hpaths.1, hpaths.2, hwork]
  refine ((h.put (hne List.prefix_rfl) _).put (hne ?_) _).put (hne ?_) _ <;>
    exact List.prefix_append _ _

theorem beside_clearBelow (h : Beside place d d') (hne : work ≠ []) (hout : ¬work <+: place) :
    Beside place (clearBelow work d) (clearBelow work d') := by
  refine ⟨h.here, ?_, ?_⟩
  · simp only [clearBelow, List.filter_filter]
    simp only [Bool.and_comm _ (!List.isPrefixOf work _), ← List.filter_filter, h.others]
  · rw [find?_clearBelow hne, find?_clearBelow hne, if_neg hout, if_neg hout]
    exact h.opened

/-- The files in a directory that the other file is not in are the same. -/
theorem copiesIn_beside {directory : Location} (h : Beside place d d')
    (hout : place.dropLast ≠ directory) : copiesIn directory d' = copiesIn directory d := by
  have hothers : ∀ b : Disk, copiesIn directory b
      = copiesIn directory ⟨b.entries.filter fun e => !isSame e.1 place, b.here⟩ := fun b => by
    unfold copiesIn
    rw [List.filterMap_filter]
    refine congrArg (List.filterMap · _) (funext fun ⟨q, entry⟩ => ?_)
    by_cases hq : isSame q place = true
    · obtain rfl := isSame_eq_true_iff.1 hq
      cases entry <;> simp [hout]
    · simp [hq]
  rw [hothers d', h.others, hothers d]
  rfl

/-- A script is copied alike beside another file. -/
theorem copy_beside (h : Beside place w.disk w'.disk) (hwork : w'.work = w.work)
    (hfresh : Fresh w.work w.disk) (hout : ¬w.work <+: place)
    (havoids : w.disk.Avoids place (Path.ofText script).text)
    (hfile : w.disk.isReadable (Path.ofText script).text = .ok true) (constructs : List Construct) :
    (∃ f, Instrument.copy (layOut w) constructs script (copiesPath w) = .error f ∧
      Instrument.copy (layOut w') constructs script (copiesPath w') = .error f) ∨
    ∃ path e e', Instrument.copy (layOut w) constructs script (copiesPath w) = .ok (path, e) ∧
      Instrument.copy (layOut w') constructs script (copiesPath w') = .ok (path, e') ∧
      Beside place (clearBelow w.work e) (clearBelow w'.work e') ∧
      copiesIn (copiesPath w').names e' = copiesIn (copiesPath w).names e := by
  have hfresh' : Fresh w'.work w'.disk := hwork ▸ hfresh.beside h hout
  have hfile' : w'.disk.isReadable (Path.ofText script).text = .ok true := by
    rw [h.isReadable_eq havoids, hfile]
  have hlaid := beside_layOut h hwork hout
  have hdirectory : copiesPath w' = copiesPath w := by
    simp only [copiesPath, workPath, hwork]
  -- The script is the same, and so is its place.
  have hread : (layOut w').read (Path.ofText script).text
      = (layOut w).read (Path.ofText script).text := by
    rw [(extends_layOut hfresh').read_eq hfile', (extends_layOut hfresh).read_eq hfile,
      h.read_eq havoids]
  have hbytes : Instrument.fileBytes (layOut w') constructs script
      = Instrument.fileBytes (layOut w) constructs script := by
    unfold Instrument.fileBytes
    rw [hread]
  have hpath : copyPath (layOut w') script (copiesPath w)
      = copyPath (layOut w) script (copiesPath w) := by
    unfold copyPath scriptPlace
    rw [(extends_layOut hfresh').locate_eq hfile', (extends_layOut hfresh).locate_eq hfile]
    unfold Disk.locate
    rw [h.locateMade_eq havoids]
  have hcopy := avoids_copyPath hfresh hout h.place_ne_nil
    (fun e he => hlaid.opened.not_isWay.1 e he) (scriptPlace (layOut w) script) script
  rw [copy_eq, copy_eq, hbytes, hdirectory, hpath]
  rcases Instrument.fileBytes (layOut w) constructs script with f | content
  · exact .inl ⟨f, rfl, rfl⟩
  obtain ⟨f, hf, hf'⟩ | ⟨e, e', he, he', hbeside⟩ := hlaid.write hcopy content
  · refine .inl ⟨.disk f, ?_, ?_⟩ <;> simp only [copyPath, hf, hf']
  · have hclear : Beside place (clearBelow w.work e) (clearBelow w'.work e') := by
      rw [hwork]
      exact beside_clearBelow hbeside hfresh.ne hout
    refine .inr ⟨copyPath (layOut w) script (copiesPath w), e, e', ?_, ?_, hclear,
      copiesIn_beside hbeside fun heq => hout ?_⟩
    · simp only [copyPath, he]
    · simp only [copyPath, he']
    · have hprefix := List.dropLast_prefix place
      rw [heq] at hprefix
      exact (List.prefix_append _ _).trans hprefix

end Explorer

end ShellProbe
