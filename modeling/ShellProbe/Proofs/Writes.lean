import ShellProbe.Metadata
import ShellProbe.Proofs.Files

/-!
# What is written

Nothing is ever taken off a disk, so a path leads on to where it once led (`LeadsTo.grows`). What is
written by some paths is only what they lead to; all else that is there stays as it is
(`Wrote.locate_eq`).
-/

namespace ShellProbe

namespace Disk

variable {d d' d'' : Disk} {place q : Location} {path : Text} {paths : List Text}

/-- Nothing is lost: directories and links stay, and no link comes to where something is. -/
structure Grows (d d' : Disk) : Prop where
  ways : d.WaysIn d'
  there : ∀ q e, d.find? q = some e → ∃ e', d'.find? q = some e' ∧ (e'.IsLink → e' = e)

namespace Grows

theorem refl (d : Disk) : Grows d d :=
  ⟨⟨rfl, fun _ _ h _ => h⟩, fun _ e h => ⟨e, h, fun _ => rfl⟩⟩

theorem trans (h : Grows d d') (h' : Grows d' d'') : Grows d d'' where
  ways := ⟨h'.ways.here.trans h.ways.here, fun q e he hway =>
    h'.ways.find q e (h.ways.find q e he hway) hway⟩
  there q e he := by
    obtain ⟨e', he', hlink⟩ := h.there q e he
    obtain ⟨e'', he'', hlink'⟩ := h'.there q e' he'
    refine ⟨e'', he'', fun hl => ?_⟩
    obtain rfl := hlink' hl
    exact hlink hl

end Grows

theorem SameBut.grows {p : Option Location} (h : SameBut p d d') : Grows d d' where
  ways := h.waysIn
  there q e he := by
    obtain ⟨e', he', halike⟩ := h.find?_some he
    refine ⟨e', he', fun hl => ?_⟩
    obtain heq | ⟨c, c', x, -, hb⟩ := halike
    · exact (Option.some.inj heq).symm
    · rw [Option.some.inj hb] at hl
      simp [Entry.IsLink] at hl

theorem Created.grows (h : d.Created path place d') : Grows d d' where
  ways := h.waysIn
  there q e he := by
    by_cases hq : q = place
    · subst hq
      rcases h.after with ⟨x, hx⟩ | ⟨-, hx⟩ <;>
        exact ⟨_, hx, fun hl => by simp [Entry.IsLink] at hl⟩
    · exact ⟨e, by rw [h.away q hq, he], fun _ => rfl⟩

theorem Extends.grows (h : Extends d d') : Grows d d' :=
  ⟨h.waysIn, fun q e he => ⟨e, h.find q e he, fun _ => rfl⟩⟩

theorem LeadsTo.grows (h : d.LeadsTo path place) (hgrows : Grows d d') :
    d'.LeadsTo path place := by
  obtain ⟨e, he⟩ := h
  have hfind := find?_of_present he
  obtain ⟨e', he', hlink⟩ := hgrows.there place e hfind
  exact ⟨e', hgrows.ways.locate_present he he' fun hl => hlink hl ▸ hfind⟩

/-- A path that does not lead to the place that was written still leads to what it led to. -/
theorem SameBut.entry?_eq {p : Option Location} (h : SameBut p d d')
    (hother : ∀ place, p = some place → ¬d.LeadsTo path place) :
    d'.entry? path = d.entry? path := by
  unfold entry? Disk.locate
  rw [h.locateMade]
  split_ifs
  · rfl
  rcases hlocate : d.locateMade false path with e | ⟨q, e⟩ | q
  · rfl
  · have haway : d'.find? q = some e := by
      rw [h.away q fun hp => hother q hp ⟨e, hlocate⟩, find?_of_present hlocate]
    simp [Except.map, Found.on, haway]
  · rfl

/-! ## Some paths -/

/-- Two paths lead to one thing. -/
def Shared (d : Disk) (path other : Text) : Prop :=
  ∃ place, d.LeadsTo path place ∧ d.LeadsTo other place

/-- Nothing was written but what some paths lead to then. -/
structure Wrote (paths : List Text) (d d' : Disk) : Prop where
  grows : Grows d d'
  kept : ∀ q e, d.find? q = some e → (∀ path ∈ paths, ¬d'.LeadsTo path q) → d'.find? q = some e

namespace Wrote

theorem refl (paths : List Text) (d : Disk) : Wrote paths d d := ⟨.refl d, fun _ _ h _ => h⟩

theorem trans (h : Wrote paths d d') (h' : Wrote paths d' d'') : Wrote paths d d'' where
  grows := h.grows.trans h'.grows
  kept q e he hout := h'.kept q e
    (h.kept q e he fun path hpath hleads => hout path hpath (hleads.grows h'.grows)) hout

/-- A path that leads elsewhere leads to what it led to. -/
theorem locate_eq {e : Entry} (h : Wrote paths d d')
    (hlocate : d.locate path = .ok (.present place e))
    (hother : ∀ other ∈ paths, ¬d'.LeadsTo other place) :
    d'.locate path = .ok (.present place e) :=
  h.grows.ways.locate_present hlocate
    (h.kept place e (find?_of_present hlocate) hother) fun _ => find?_of_present hlocate

end Wrote

theorem SameBut.wrote {p : Option Location} (h : SameBut p d d')
    (hleads : ∀ place, p = some place → ∃ path ∈ paths, d.LeadsTo path place) :
    Wrote paths d d' where
  grows := h.grows
  kept q e he hout := by
    rw [h.away q fun hp => ?_, he]
    obtain ⟨path, hpath, hleads⟩ := hleads q hp
    exact hout path hpath (hleads.grows h.grows)

theorem Extends.wrote (h : Extends d d') (paths : List Text) : Wrote paths d d' :=
  ⟨h.grows, fun q e he _ => h.find q e he⟩

theorem Created.wrote (h : d.Created path place d') (hpath : path ∈ paths) : Wrote paths d d' where
  grows := h.grows
  kept q e he hout := by
    rw [h.away q fun hq => ?_, he]
    exact hout path hpath (hq ▸ h.leads)

theorem wrote_write {bytes : Bytes} (h : d.write path bytes = .ok d') (hpath : path ∈ paths) :
    Wrote paths d d' := by
  obtain ⟨place, opened, hcreated, rfl⟩ := write_cases h
  refine (hcreated.wrote hpath).trans ((sameBut_writeAt opened place 0 bytes).wrote ?_)
  rintro q hq
  obtain rfl := Option.some.inj hq
  exact ⟨path, hpath, hcreated.leads⟩

/-! ## Files that can be written -/

/-- A file at a path can be written, or made. -/
def Writable (d : Disk) (path : Text) : Prop :=
  ∃ place d', d.create path = .ok (place, d') ∧ d.find? place ≠ some .sink

theorem Writable.hasNull (h : d.Writable path) : hasNull path = false := by
  obtain ⟨place, d', hcreate, -⟩ := h
  unfold create at hcreate
  split_ifs at hcreate with hnull
  simpa using hnull

theorem writable_of_absent (hnull : hasNull path = false)
    (h : d.locateMade true path = .ok (.absent place)) : d.Writable path :=
  ⟨place, _, create_of_absent hnull h, by simp [(find?_of_absent h).1]⟩

theorem writable_of_file {content : Bytes} {x : Bool} (hnull : hasNull path = false)
    (h : d.locateMade true path = .ok (.present place (.file content x))) : d.Writable path :=
  ⟨place, _, create_of_file hnull h, by simp [find?_of_present h]⟩

theorem SameBut.writable {p : Option Location} (h : SameBut p d d') (hd : d.Writable path) :
    d'.Writable path := by
  obtain ⟨place, made, hcreate, hsink⟩ := hd
  have halike := h.create path
  rw [hcreate] at halike
  obtain ⟨made', hcreate', -⟩ := halike.ok
  refine ⟨place, made', hcreate', fun heq => hsink ?_⟩
  exact h.symm.find?_eq_some heq (by simp)

/-- What is written where a file can be written is then at its path. -/
theorem Writable.locate_write (h : d.Writable path) (bytes : Bytes) : ∃ place x d',
    d.write path bytes = .ok d' ∧ d'.locate path = .ok (.present place (.file bytes x)) := by
  obtain ⟨place, opened, hcreate, hsink⟩ := h
  have hcreated := created_of_create hcreate
  obtain ⟨x, hx⟩ := hcreated.after.resolve_right fun hand => hsink hand.1
  have hwrite : d.write path bytes = .ok (opened.writeAt place 0 bytes) := by
    rw [write, hcreate]
    rfl
  refine ⟨place, x, _, hwrite, ?_⟩
  have hsame := sameBut_writeAt opened place 0 bytes
  obtain ⟨e, he⟩ := hcreated.leads
  exact hsame.waysIn.locate_present he (find?_writeAt hx bytes)
    fun hlink => by simp [Entry.IsLink] at hlink

theorem WaysIn.locate_absent {made : Bool} (hways : d.WaysIn d')
    (h : d.locateMade made path = .ok (.absent q)) (hfind : d'.find? q = none) :
    d'.locateMade made path = .ok (.absent q) := by
  obtain ⟨hempty, hlong, hreaches⟩ := locateMade_eq_ok_iff.1 h
  refine locateMade_eq_ok_iff.2 ⟨hempty, hlong, ?_⟩
  rw [hways.pathStart]
  exact hreaches.missing hways hfind

/-- A file can still be written when another was opened. -/
theorem Created.writable {other : Text} (h : d.Created path place d')
    (hother : ¬d'.LeadsTo other place) (hd : d.Writable other) : d'.Writable other := by
  -- What the path leads to on the first disk is not what was opened.
  have hplace : ∀ r, d.locateMade true other = .ok r → r.place ≠ place := by
    rintro r hr rfl
    have hafter : ∃ e, d'.find? r.place = some e ∧ ¬e.IsLink := by
      rcases h.after with ⟨x, hx⟩ | ⟨-, hx⟩ <;> exact ⟨_, hx, by simp [Entry.IsLink]⟩
    obtain ⟨e, he, hlink⟩ := hafter
    exact hother ⟨e, h.waysIn.locate_present (locate_of_made hr) he fun hl => absurd hl hlink⟩
  obtain ⟨q, made, hcreate, hsink⟩ := hd
  unfold create at hcreate
  split_ifs at hcreate with hnull
  rcases hlocate : d.locateMade true other with e | ⟨q', e⟩ | q' <;> rw [hlocate] at hcreate
  · cases hcreate
  · have hfind := find?_of_present hlocate
    have haway : d'.find? q' = some e := by rw [h.away q' (hplace _ hlocate), hfind]
    have hthere : d'.locateMade true other = .ok (.present q' e) :=
      h.waysIn.locate_present hlocate haway fun _ => hfind
    cases e with
    | file c x => exact writable_of_file (Bool.not_eq_true _ ▸ hnull) hthere
    | sink =>
      obtain ⟨rfl, -⟩ := Prod.mk.inj (Except.ok.inj hcreate)
      exact absurd hfind hsink
    | _ => cases hcreate
  · have haway : d'.find? q' = none := by
      rw [h.away q' (hplace _ hlocate), (find?_of_absent hlocate).1]
    exact writable_of_absent (Bool.not_eq_true _ ▸ hnull) (h.waysIn.locate_absent hlocate haway)

/-! ## Files that are found -/

namespace Created

variable {other : Text} (h : d.Created path place d') (hother : ¬d'.LeadsTo other place)

include h hother

theorem entryAlike : EntryAlike (d.entry? other) (d'.entry? other) :=
  .inl (h.entry?_eq hother).symm

/-- A file that was not opened is found as before. -/
theorem isFile_eq : d'.isFile other = d.isFile other :=
  (h.entryAlike hother).isFile_eq (h.waysIn.refusal?_eq h.waysIn_back other)

theorem read_eq (hfile : d.isFile other = .ok true) : d'.read other = d.read other := by
  obtain ⟨entry, hentry⟩ := entry?_of_isFile hfile
  exact read_congr hentry ((h.entry?_eq hother).trans hentry)

end Created

end Disk

namespace Explorer

open Disk

theorem wrote_writeBelow (d : Disk) (path : Path) (text : Text) :
    Wrote [path.text] d (writeBelow d path text).2 := by
  unfold writeBelow
  have hmade := (extends_makeDirectories path.root path.parent.names.reverse maxMade d).wrote
    [path.text]
  split
  · rename_i hdirectories
    rwa [hdirectories] at hmade
  · rename_i hdirectories
    rw [hdirectories] at hmade
    split
    · rename_i hwrite
      exact hmade.trans (wrote_write hwrite List.mem_cons_self)
    · exact hmade

end Explorer

end ShellProbe
