import Mathlib.Data.List.Basic
import ShellProbe.Disk.Basic

/-!
# Walks

A walk that gets somewhere steps on directories and links alone (`walk_eq_ok_iff`). So it gets to
the same place on every disk that has these, whatever else there is on it (`Reaches.present`,
`Reaches.missing`).
-/

namespace ShellProbe

def Entry.IsLink (e : Entry) : Prop := ∃ target, e = .link target

/-- What a walk looks into: a directory, also one that may not be entered, or a link. -/
def Entry.IsWay (e : Entry) : Prop := e = .directory ∨ e = .closed ∨ e.IsLink

namespace Disk

def Found.place : Found → Location
  | .present place _ => place
  | .absent place => place

variable {d d' : Disk} {place q : Location} {entry : Entry}

/-! ## What is where -/

@[simp] theorem find?_nil (d : Disk) : d.find? [] = some .directory := rfl

@[simp] theorem here_put (d : Disk) (place : Location) (entry : Entry) :
    (d.put place entry).here = d.here := rfl

theorem find?_of_ne_nil (h : q ≠ []) :
    d.find? q = (d.entries.find? fun e => isSame e.1 q).map (·.2) := if_neg h

theorem find?_put (d : Disk) (place : Location) (entry : Entry) (q : Location) :
    (d.put place entry).find? q = if q = place ∧ q ≠ [] then some entry else d.find? q := by
  by_cases hq : q = []
  · rw [hq, if_neg fun hand => hand.2 rfl]
    rfl
  rw [find?_of_ne_nil hq, find?_of_ne_nil hq, put]
  by_cases hany : (d.entries.any fun e => isSame e.1 place) = true
  · rw [if_pos hany]
    have hsame : ((fun e => isSame e.1 q) ∘ fun e : Location × Entry =>
        if isSame e.1 place then (place, entry) else e) = fun e => isSame e.1 q := by
      funext e
      dsimp only [Function.comp_apply]
      split_ifs with he
      · rw [isSame_eq_true_iff.1 he]
      · rfl
    dsimp only
    rw [List.find?_map, hsame]
    obtain hfind | ⟨e, hfind⟩ :=
      Option.eq_none_or_eq_some (d.entries.find? fun e => isSame e.1 q)
    · have hne : q ≠ place := fun heq => by
        obtain ⟨e, he, hplace⟩ := List.any_eq_true.1 hany
        exact List.find?_eq_none.1 hfind e he (heq ▸ hplace)
      simp only [hfind, hne, Option.map_none, false_and, if_false]
    · have he : isSame e.1 q = true :=
        List.find?_some (p := fun e : Location × Entry => isSame e.1 q) hfind
      have heq : e.1 = q := isSame_eq_true_iff.1 he
      rw [hfind]
      by_cases hplace : q = place <;> simp_all
  · rw [if_neg hany]
    have hnone : (d.entries.find? fun e => isSame e.1 place) = none := by
      simpa only [List.find?_eq_none, List.any_eq_true, not_exists, not_and] using hany
    dsimp only
    rw [List.find?_append]
    by_cases hplace : q = place
    · simp [hplace, hnone, hplace ▸ hq]
    · have hsame : isSame place q = false := by
        rw [← Bool.not_eq_true, isSame_eq_true_iff]
        exact Ne.symm hplace
      simp [hplace, hsame]

/-! ## Walks -/

/-- A name that a walk may step on. -/
structure IsStep (made : Bool) (name : Text) (rest : List Text) : Prop where
  isName : Path.isName name = true
  ne : name ≠ ".."
  slash : (made && endsInSlash rest) = false
  short : isLongName name = false

/-- Where a link leads on to. -/
def linkStart (target : Text) (place : Location) : Location :=
  if target.startsWith ['/'] then [] else place

/-- How a walk gets somewhere. -/
inductive Reaches (d : Disk) (made : Bool) : Nat → Location → List Text → Found → Prop
  | stop {links place entry} (hfind : d.find? place = some entry) :
    Reaches d made links place [] (.present place entry)
  | skip {links place name rest r} (hdir : d.find? place = some .directory)
    (hname : Path.isName name = false) (h : Reaches d made links place rest r) :
    Reaches d made links place (name :: rest) r
  | up {links place rest r} (hdir : d.find? place = some .directory)
    (h : Reaches d made links place.dropLast rest r) :
    Reaches d made links place ((".." : Text) :: rest) r
  | absent {links place name} (hdir : d.find? place = some .directory)
    (hstep : IsStep made name []) (hfind : d.find? (place ++ [name]) = none) :
    Reaches d made links place [name] (.absent (place ++ [name]))
  | follow {links place name rest target r} (hdir : d.find? place = some .directory)
    (hstep : IsStep made name rest) (hfind : d.find? (place ++ [name]) = some (.link target))
    (h : Reaches d made links (linkStart target place) (Path.pieces target ++ rest) r) :
    Reaches d made (links + 1) place (name :: rest) r
  | on {links place name rest entry r} (hdir : d.find? place = some .directory)
    (hstep : IsStep made name rest) (hfind : d.find? (place ++ [name]) = some entry)
    (hlink : ¬entry.IsLink) (h : Reaches d made links (place ++ [name]) rest r) :
    Reaches d made links place (name :: rest) r

variable {made : Bool} {links : Nat} {pieces : List Text} {r : Found}

theorem reaches_of_walk (h : d.walk made links place pieces = .ok r) :
    d.Reaches made links place pieces r := by
  fun_induction walk d made links place pieces with
  | case1 links place entry hfind =>
    obtain rfl := Except.ok.inj h
    exact .stop hfind
  | case9 links place name rest hdir hname ih => exact .skip hdir (by simpa using hname) (ih h)
  | case10 links place rest hdir hname ih => exact .up hdir (ih h)
  | case13 links place name hdir hname hne hlong hfind hslash =>
    obtain rfl := Except.ok.inj h
    exact .absent hdir ⟨by simpa using hname, hne, by simpa using hslash, by simpa using hlong⟩
      hfind
  | case16 place name rest hdir hname hne hslash hlong target hfind links start ih =>
    exact .follow hdir ⟨by simpa using hname, hne, by simpa using hslash, by simpa using hlong⟩
      hfind (ih h)
  | case17 links place name rest hdir hname hne hslash hlong entry hlink hfind ih =>
    exact .on hdir ⟨by simpa using hname, hne, by simpa using hslash, by simpa using hlong⟩
      hfind (fun ⟨t, ht⟩ => hlink t ht) (ih h)
  | _ => simp at h

theorem Reaches.walk (h : d.Reaches made links place pieces r) :
    d.walk made links place pieces = .ok r := by
  induction h with
  | stop hfind => simp [Disk.walk, hfind]
  | skip hdir hname h ih => simp [Disk.walk, hdir, hname, ih]
  | up hdir h ih =>
    have hname : Path.isName ".." = true := by decide
    simp [Disk.walk, hdir, hname, ih]
  | absent hdir hstep hfind =>
    simp [Disk.walk, hdir, hstep.isName, hstep.ne, hstep.short, hstep.slash, hfind]
  | follow hdir hstep hfind h ih =>
    simpa [Disk.walk, hdir, hstep.isName, hstep.ne, hstep.short, hstep.slash, hfind,
      linkStart] using ih
  | @on links place name rest entry r hdir hstep hfind hlink h ih =>
    cases entry with
    | link target => exact absurd ⟨target, rfl⟩ hlink
    | _ => simp [Disk.walk, hdir, hstep.isName, hstep.ne, hstep.short, hstep.slash, hfind, ih]

theorem walk_eq_ok_iff : d.walk made links place pieces = .ok r ↔
    d.Reaches made links place pieces r := ⟨reaches_of_walk, Reaches.walk⟩

namespace Reaches

/-- A walk does not go on from where there is no directory. -/
theorem of_not_directory (h : d.Reaches made links place pieces r)
    (hfind : d.find? place = some entry) (hne : entry ≠ .directory) :
    pieces = [] ∧ r = .present place entry := by
  cases h with
  | stop hfind' =>
    rw [hfind] at hfind'
    exact ⟨rfl, by rw [Option.some.inj hfind']⟩
  | skip hdir | up hdir | absent hdir | follow hdir | on hdir =>
    rw [hfind] at hdir
    exact absurd (Option.some.inj hdir) hne

theorem find (h : d.Reaches made links place pieces r) :
    (∀ e, r = .present r.place e → d.find? r.place = some e) ∧
      (r = .absent r.place → d.find? r.place = none ∧ r.place ≠ []) := by
  induction h with
  | stop hfind =>
    refine ⟨fun e he => ?_, fun he => by simp [Found.place] at he⟩
    simp only [Found.place, Found.present.injEq, true_and] at he ⊢
    rw [hfind, he]
  | absent hdir hstep hfind =>
    exact ⟨fun e he => by simp [Found.place] at he, fun _ => ⟨hfind, by simp [Found.place]⟩⟩
  | skip | up | follow | on => assumption

/-- A walk that need not make a file may do all that one that does may do. -/
theorem of_made (h : d.Reaches true links place pieces r) :
    d.Reaches false links place pieces r := by
  induction h with
  | stop hfind => exact .stop hfind
  | skip hdir hname h ih => exact .skip hdir hname ih
  | up hdir h ih => exact .up hdir ih
  | absent hdir hstep hfind => exact .absent hdir ⟨hstep.isName, hstep.ne, rfl, hstep.short⟩ hfind
  | follow hdir hstep hfind h ih =>
    exact .follow hdir ⟨hstep.isName, hstep.ne, rfl, hstep.short⟩ hfind ih
  | on hdir hstep hfind hlink h ih =>
    exact .on hdir ⟨hstep.isName, hstep.ne, rfl, hstep.short⟩ hfind hlink ih

end Reaches

/-! ## Disks with the same ways -/

/-- All directories and links of a disk are on another. -/
structure WaysIn (d d' : Disk) : Prop where
  here : d'.here = d.here
  find : ∀ q e, d.find? q = some e → e.IsWay → d'.find? q = some e

namespace Reaches

variable (hways : d.WaysIn d')

include hways

theorem present (h : d.Reaches made links place pieces r) (hfind' : d'.find? r.place = some entry)
    (hlink' : entry.IsLink → d.find? r.place = some entry) :
    d'.Reaches made links place pieces (.present r.place entry) := by
  have dir : ∀ {q}, d.find? q = some .directory → d'.find? q = some .directory :=
    fun hdir => hways.find _ _ hdir (.inl rfl)
  induction h with
  | stop hfind => exact .stop hfind'
  | skip hdir hname h ih => exact .skip (dir hdir) hname (ih hfind' hlink')
  | up hdir h ih => exact .up (dir hdir) (ih hfind' hlink')
  | absent hdir hstep hfind =>
    have hno : ¬entry.IsLink := fun hlink => by simpa [Found.place, hfind] using hlink' hlink
    exact .on (dir hdir) hstep hfind' hno (.stop hfind')
  | follow hdir hstep hfind h ih =>
    exact .follow (dir hdir) hstep (hways.find _ _ hfind (.inr (.inr ⟨_, rfl⟩))) (ih hfind' hlink')
  | @on links place name rest e r hdir hstep hfind hlink h ih =>
    by_cases he : e = .directory
    · rw [he] at hfind
      exact .on (dir hdir) hstep (dir hfind) (fun ⟨_, ht⟩ => by simp at ht) (ih hfind' hlink')
    · obtain ⟨-, rfl⟩ := h.of_not_directory hfind he
      have hno : ¬entry.IsLink := fun hentry => by
        have heq := hlink' hentry
        simp only [Found.place, hfind, Option.some.injEq] at heq
        exact hlink (heq ▸ hentry)
      exact .on (dir hdir) hstep hfind' hno (ih hfind' hlink')

theorem missing (h : d.Reaches made links place pieces (.absent q)) (hfind' : d'.find? q = none) :
    d'.Reaches made links place pieces (.absent q) := by
  have dir : ∀ {q}, d.find? q = some .directory → d'.find? q = some .directory :=
    fun hdir => hways.find _ _ hdir (.inl rfl)
  generalize hr : Found.absent q = r at h
  induction h with
  | stop hfind => simp at hr
  | skip hdir hname h ih => exact .skip (dir hdir) hname (ih hr)
  | up hdir h ih => exact .up (dir hdir) (ih hr)
  | absent hdir hstep hfind =>
    obtain rfl := Found.absent.inj hr
    exact .absent (dir hdir) hstep hfind'
  | follow hdir hstep hfind h ih =>
    exact .follow (dir hdir) hstep (hways.find _ _ hfind (.inr (.inr ⟨_, rfl⟩))) (ih hr)
  | @on links place name rest e r hdir hstep hfind hlink h ih =>
    by_cases he : e = .directory
    · rw [he] at hfind
      exact .on (dir hdir) hstep (dir hfind) (fun ⟨_, ht⟩ => by simp at ht) (ih hr)
    · obtain ⟨-, rfl⟩ := h.of_not_directory hfind he
      simp at hr

end Reaches

/-- A walk comes to a name that it may not step on by directories and links alone. -/
theorem WaysIn.walk_refused {e : Errno} (hways : d.WaysIn d') (he : e.saysAbsent = false)
    (h : d.walk made links place pieces = .error e) :
    d'.walk made links place pieces = .error e := by
  have dir : ∀ {q}, d.find? q = some .directory → d'.find? q = some .directory :=
    fun hdir => hways.find _ _ hdir (.inl rfl)
  fun_induction walk d made links place pieces with
  | case8 links place name rest hclosed =>
    rw [walk, hways.find _ _ hclosed (.inr (.inl rfl))]
    exact h
  | case9 links place name rest hdir hname ih => simp [walk, dir hdir, hname, ih h]
  | case10 links place rest hdir hname ih => simp [walk, dir hdir, hname, ih h]
  | case11 links place name rest hdir hname hne hslash =>
    simpa [walk, dir hdir, hname, hne, hslash] using h
  | case12 links place name rest hdir hname hne hslash hlong =>
    simpa [walk, dir hdir, hname, hne, hslash, hlong] using h
  | case16 place name rest hdir hname hne hslash hlong target hfind links start ih =>
    have hlink := hways.find _ _ hfind (.inr (.inr ⟨target, rfl⟩))
    simp only [walk, dir hdir, hname, hne, hslash, hlong, hlink]
    exact ih h
  | case17 links place name rest hdir hname hne hslash hlong entry hlink hfind ih =>
    by_cases hway : entry.IsWay
    · have hthere := hways.find _ _ hfind hway
      cases entry with
      | link target => exact absurd rfl (hlink target)
      | _ => simp [walk, dir hdir, hname, hne, hslash, hlong, hthere, ih h]
    · -- Anything else is the end of a walk or no directory, and that is another error.
      cases rest with
      | nil =>
        rw [walk, hfind] at h
        cases h
      | cons next rest =>
        have hno : e = .notDirectory := by
          rw [walk] at h
          cases entry with
          | directory => exact absurd (.inl rfl) hway
          | closed => exact absurd (.inr (.inl rfl)) hway
          | _ => simpa only [hfind, Except.error.injEq, eq_comm] using h
        rw [hno] at he
        cases he
  | case1 | case13 => cases h
  | _ =>
    obtain rfl := Except.error.inj h
    cases he

end Disk

end ShellProbe
