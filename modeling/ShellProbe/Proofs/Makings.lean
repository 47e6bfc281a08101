import ShellProbe.Proofs.Bystanders

/-!
# Directories made beside a file

A file that a path avoids makes no difference to which directories are made on that path
(`Beside.makeDirectories`), and whether a file is then written at its end (`writeBelow_beside`).
-/

namespace ShellProbe

namespace Path

/-- A path as it is read from a text. -/
structure IsRead (p : Path) : Prop where
  root : p.root = [] ∨ p.root = "/" ∨ p.root = "//"
  names : ∀ name ∈ p.names, isName name = true ∧ .scalar '/' ∉ name

theorem isRead_ofText (t : Text) : (ofText t).IsRead where
  root := by
    unfold ofText
    dsimp only
    split_ifs <;> simp
  names name hname := by
    obtain ⟨hmem, hisName⟩ := List.mem_filter.1 hname
    exact ⟨hisName, Text.not_mem_of_mem_splitOn _ _ _ hmem⟩

theorem pieces_slash (t : Text) : pieces ("/" ++ t) = [] :: pieces t := by
  simp [pieces, Text.splitOn, Text.ofString]

theorem pieces_joinWith {names : List Text} (hne : names ≠ [])
    (h : ∀ name ∈ names, .scalar '/' ∉ name) : pieces (Text.joinWith "/" names) = names := by
  rw [pieces, Text.splitOn_eq]
  exact List.splitOn_intercalate _ h hne

variable {p : Path}

theorem IsRead.parent (h : p.IsRead) : p.parent.IsRead :=
  ⟨h.root, fun name hname => h.names name (List.dropLast_subset _ hname)⟩

theorem IsRead.text_ne_nil (h : p.IsRead) : p.text ≠ [] := by
  obtain ⟨root, names⟩ := p
  rcases h.root with rfl | rfl | rfl
  · rcases names with - | ⟨name, names⟩
    · decide
    have hname : name ≠ [] := fun heq => by
      have hisName := (h.names name List.mem_cons_self).1
      rw [heq] at hisName
      cases hisName
    rcases names with - | ⟨other, names⟩ <;> simp [text, Text.joinWith, hname]
  · simp [text, Text.ofString]
  · simp [text, Text.ofString]

/-- The pieces of a path are its names, behind some that are none. -/
theorem IsRead.pieces_text (h : p.IsRead) :
    ∃ lead, (∀ piece ∈ lead, isName piece = false) ∧ pieces p.text = lead ++ p.names := by
  obtain ⟨root, names⟩ := p
  have hslash : ∀ name ∈ names, .scalar '/' ∉ name := fun name hname => (h.names name hname).2
  by_cases hnames : names = []
  · subst hnames
    refine ⟨pieces (Path.mk root []).text, ?_, (List.append_nil _).symm⟩
    rcases h.root with rfl | rfl | rfl <;> decide
  · have htext : (Path.mk root names).text = root ++ Text.joinWith "/" names := by
      rw [text, if_neg fun hand => hnames hand.2]
    have hjoin := pieces_joinWith hnames hslash
    rcases h.root with rfl | rfl | rfl
    · exact ⟨[], by simp, by rw [htext, List.nil_append, hjoin, List.nil_append]⟩
    · exact ⟨[[]], by simp [isName], by rw [htext, pieces_slash, hjoin]; rfl⟩
    · have hroot : Text.ofString "//" = "/" ++ Text.ofString "/" := rfl
      refine ⟨[[], []], by simp [isName], ?_⟩
      rw [htext, hroot, List.append_assoc, pieces_slash, pieces_slash, hjoin]
      rfl

end Path

namespace Disk

variable {d d' e : Disk} {goal place q : Location} {made : Bool} {links : Nat}
  {pieces names lead : List Text} {name : Text} {p : Path} {r : Found}

/-! ## Walks along names -/

/-- Where the names of a path start. -/
def namesStart (d : Disk) (root : Text) : Location := if root = [] then d.here else []

theorem pathStart_text (h : p.IsRead) (d : Disk) : d.pathStart p.text = d.namesStart p.root := by
  obtain ⟨root, names⟩ := p
  rcases h.root with rfl | rfl | rfl
  · rcases names with - | ⟨name, names⟩
    · rfl
    obtain ⟨hname, hslash⟩ := h.names name List.mem_cons_self
    rcases name with - | ⟨c, name⟩
    · cases hname
    have hc : c ≠ .scalar '/' := fun heq => hslash (heq ▸ List.mem_cons_self)
    have hstart : (Path.mk [] ((c :: name) :: names)).text.startsWith ['/'] = false := by
      rcases names with - | ⟨other, names⟩ <;>
        simp [Path.text, Text.joinWith, Text.startsWith, List.isPrefixOf, Ne.symm hc]
    rw [pathStart, hstart]
    rfl
  · rw [pathStart, if_pos (startsWith_text names)]
    rfl
  · have hstart : (Path.mk "//" names).text.startsWith ['/'] = true := by
      simp [Path.text, Text.startsWith, Text.ofString]
    rw [pathStart, if_pos hstart]
    rfl

theorem ComesBy.passable (h : d.ComesBy goal links place pieces) :
    place = goal ∨ d.Passable place := by
  cases h with
  | here => exact .inl rfl
  | skip hpass | up hpass | next hpass | follow hpass | on hpass => exact .inr hpass

/-- Pieces that are no names lead nowhere. -/
theorem comesBy_lead_iff (hlead : ∀ piece ∈ lead, Path.isName piece = false) :
    d.ComesBy goal links place (lead ++ names) ↔ d.ComesBy goal links place names := by
  induction lead with
  | nil => rfl
  | cons piece lead ih =>
    have hpiece := hlead piece List.mem_cons_self
    rw [← ih fun n hn => hlead n (List.mem_cons_of_mem _ hn)]
    constructor
    · intro h
      cases h with
      | here => exact .here
      | skip _ _ h => exact h
      | up => cases hpiece
      | next _ hname | follow _ hname | on _ hname => rw [hpiece] at hname; cases hname
    · intro h
      obtain rfl | hpass := h.passable
      · exact .here
      · exact .skip hpass hpiece h

theorem avoids_text_iff (h : p.IsRead) :
    d.Avoids goal p.text ↔ ¬d.ComesBy goal maxLinks (d.namesStart p.root) p.names := by
  obtain ⟨lead, hlead, hpieces⟩ := h.pieces_text
  rw [Avoids, pathStart_text h, hpieces, comesBy_lead_iff hlead]

theorem Reaches.of_lead (hlead : ∀ piece ∈ lead, Path.isName piece = false)
    (h : d.Reaches made links place (lead ++ names) r) : d.Reaches made links place names r := by
  induction lead with
  | nil => exact h
  | cons piece lead ih =>
    have hpiece := hlead piece List.mem_cons_self
    refine ih (fun n hn => hlead n (List.mem_cons_of_mem _ hn)) ?_
    generalize hpieces : piece :: lead ++ names = pieces at h
    cases h with
    | stop => cases hpieces
    | @skip _ _ _ rest _ _ _ h =>
      obtain rfl : lead ++ names = rest := (List.cons.inj hpieces).2
      exact h
    | up => rw [(List.cons.inj hpieces).1] at hpiece; cases hpiece
    | absent _ hstep | follow _ hstep | on _ hstep =>
      have hname := hstep.isName
      rw [← (List.cons.inj hpieces).1, hpiece] at hname
      cases hname

theorem ComesBy.append (h : d.ComesBy goal links place pieces) (more : List Text) :
    d.ComesBy goal links place (pieces ++ more) := by
  induction h with
  | here => exact .here
  | skip hpass hname _ ih => exact .skip hpass hname ih
  | up hpass _ ih => exact .up hpass ih
  | next hpass hname hne hgoal => exact .next hpass hname hne hgoal
  | follow hpass hname hne hfind _ ih =>
    rw [List.append_assoc] at ih
    exact .follow hpass hname hne hfind ih
  | on hpass hname hne hnext _ ih => exact .on hpass hname hne hnext ih

/-- Names lead on to a place, perhaps once directories that are missing are made. -/
structure Onward (d : Disk) (start : Location) (names : List Text) (q : Location) : Prop where
  passable : d.Passable q
  on : ∃ links, ∀ goal more, d.ComesBy goal links q more →
    d.ComesBy goal maxLinks start (names ++ more)

theorem Onward.refl (h : d.Passable q) : d.Onward q [] q := ⟨h, maxLinks, fun _ _ hmore => hmore⟩

theorem Onward.comesBy (h : d.Onward place names q) (hname : Path.isName name = true)
    (hne : name ≠ "..") : d.ComesBy (q ++ [name]) maxLinks place (names ++ [name]) := by
  obtain ⟨links, hon⟩ := h.on
  exact hon _ _ (.next h.passable hname hne rfl)

theorem Onward.snoc (h : d.Onward place names q) (hname : Path.isName name = true)
    (hne : name ≠ "..") (hnext : d.Passable (q ++ [name])) :
    d.Onward place (names ++ [name]) (q ++ [name]) := by
  obtain ⟨links, hon⟩ := h.on
  refine ⟨hnext, links, fun goal more hmore => ?_⟩
  rw [List.append_assoc]
  exact hon _ _ (.on h.passable hname hne hnext hmore)

/-- What a disk reaches on which more directories were made, is onward before. -/
theorem Reaches.onward (hadmits : d.Admits e)
    (h : e.Reaches made links place pieces (.present q .directory)) : d.Passable q ∧
      ∃ k, ∀ goal more, d.ComesBy goal k q more → d.ComesBy goal links place (pieces ++ more) := by
  generalize hr : Found.present q .directory = r at h
  induction h with
  | stop hfind =>
    obtain ⟨rfl, rfl⟩ := Found.present.inj hr
    exact ⟨hadmits.passable _ (.inr hfind), _, fun _ _ hmore => hmore⟩
  | skip hdir hname _ ih =>
    obtain ⟨hpass, k, hon⟩ := ih hr
    exact ⟨hpass, k, fun _ _ hmore => .skip (hadmits.passable _ (.inr hdir)) hname (hon _ _ hmore)⟩
  | up hdir _ ih =>
    obtain ⟨hpass, k, hon⟩ := ih hr
    exact ⟨hpass, k, fun _ _ hmore => .up (hadmits.passable _ (.inr hdir)) (hon _ _ hmore)⟩
  | absent => cases hr
  | follow hdir hstep hfind _ ih =>
    obtain ⟨hpass, k, hon⟩ := ih hr
    refine ⟨hpass, k, fun goal more hmore => .follow (hadmits.passable _ (.inr hdir)) hstep.isName
      hstep.ne (hadmits.link _ _ hfind) ?_⟩
    have hrest := hon _ _ hmore
    rwa [List.append_assoc] at hrest
  | @on links place name rest entry r hdir hstep hfind hlink h ih =>
    have hentry : entry = .directory := by
      by_contra hentry
      obtain ⟨-, rfl⟩ := h.of_not_directory hfind hentry
      exact hentry (Found.present.inj hr).2.symm
    obtain ⟨hpass, k, hon⟩ := ih hr
    exact ⟨hpass, k, fun _ _ hmore => .on (hadmits.passable _ (.inr hdir)) hstep.isName hstep.ne
      (hadmits.passable _ (.inr (hentry ▸ hfind))) (hon _ _ hmore)⟩

theorem onward_of_locate (hp : p.IsRead) (hadmits : d.Admits e)
    (h : e.locate p.text = .ok (.present q .directory)) :
    d.Onward (d.namesStart p.root) p.names q := by
  obtain ⟨lead, hlead, hpieces⟩ := hp.pieces_text
  have hreaches := (locateMade_eq_ok_iff.1 h).2.2
  rw [pathStart_text hp, hpieces] at hreaches
  have hstart : e.namesStart p.root = d.namesStart p.root := by
    rw [namesStart, namesStart, hadmits.here]
  obtain ⟨hpass, hon⟩ := (hreaches.of_lead hlead).onward hadmits
  rw [hstart] at hon
  exact ⟨hpass, hon⟩

theorem Admits.trans (h : d.Admits e) {e' : Disk} (h' : e.Admits e') : d.Admits e' :=
  ⟨h'.here.trans h.here, fun q hq => h.passable q (h'.passable q hq), fun q target hq =>
    h.link q target (h'.link q target hq)⟩

/-! ## Making one directory -/

/-- The file is at no place of a directory that may not be entered. -/
theorem Beside.find?_eq_closed_iff (h : Beside goal d d') :
    d'.find? q = some .closed ↔ d.find? q = some .closed :=
  ⟨fun hclosed => h.waysIn_back.find _ _ hclosed (.inr (.inl rfl)),
    fun hclosed => h.waysIn.find _ _ hclosed (.inr (.inl rfl))⟩

theorem admits_put_directory (hnone : d.find? q = none) : d.Admits (d.put q .directory) := by
  refine ⟨rfl, fun x hx => ?_, fun x target hx => ?_⟩
  · by_cases hq : x = q
    · exact .inl (hq ▸ hnone)
    · rwa [Passable, find?_put, if_neg fun hand => hq hand.1] at hx
  · by_cases hq : x = q ∧ x ≠ []
    · rw [find?_put, if_pos hq] at hx
      cases hx
    · rwa [find?_put, if_neg hq] at hx

/-- A directory is made in another alike, or not made, if it is not in the place of the file. -/
theorem Beside.makeIn (h : Beside goal d d') (hgoal : name ≠ ".." → place ++ [name] ≠ goal) :
    (∃ f, d.makeIn place name = .error f ∧ d'.makeIn place name = .error f ∧ f ≠ .noEntry) ∨
    ∃ e e', d.makeIn place name = .ok (place ++ [name], e) ∧
      d'.makeIn place name = .ok (place ++ [name], e') ∧ Beside goal e e' ∧ d.Admits e ∧
      name ≠ ".." ∧ d.Passable (place ++ [name]) := by
  unfold Disk.makeIn
  simp only [h.find?_eq_closed_iff]
  split_ifs with hclosed hup hlong hsome hsome' hsome'
  · exact .inl ⟨_, rfl, rfl, by simp⟩
  · exact .inl ⟨_, rfl, rfl, by simp⟩
  · exact .inl ⟨_, rfl, rfl, by simp⟩
  · exact .inl ⟨_, rfl, rfl, by simp⟩
  · rw [h.find?_eq (hgoal hup)] at hsome'
    exact absurd hsome hsome'
  · rw [h.find?_eq (hgoal hup)] at hsome'
    exact absurd hsome' hsome
  · have hnone : d.find? (place ++ [name]) = none := by simpa using hsome
    exact .inr ⟨_, _, rfl, rfl, h.put (hgoal hup) _, admits_put_directory hnone, hup, .inl hnone⟩

theorem walk_noEntry (h : d.walk made links place pieces = .error .noEntry) : d.Passable place := by
  cases pieces with
  | nil =>
    rw [walk] at h
    split at h
    · cases h
    · exact .inl ‹_›
  | cons name rest =>
    rw [walk] at h
    split at h
    · exact .inl ‹_›
    all_goals first | cases h | exact .inr ‹_›

theorem Reaches.passable (h : d.Reaches made links place pieces r)
    (hr : ∀ q e, r = .present q e → e = .directory) : d.Passable place := by
  cases h with
  | stop hfind => exact .inr (hr _ _ rfl ▸ hfind)
  | skip hdir | up hdir | absent hdir | follow hdir | on hdir => exact .inr hdir

/-- Where a directory cannot be made for want of the one it lies in, there is one to start from, or
nothing. -/
theorem passable_of_makeDirectory {t : Text} (hp : p.IsRead)
    (h : d.makeDirectory p = .error (.system .noEntry t)) : d.Passable (d.namesStart p.root) := by
  have hstart : d.pathStart p.parent.text = d.namesStart p.root := pathStart_text hp.parent d
  rw [← hstart]
  unfold makeDirectory at h
  dsimp only at h
  split_ifs at h with hnull hlong
  · cases h
  · cases h
  split at h
  · cases h
  · rename_i name e hlast hlocate
    obtain rfl : e = .noEntry := (DiskFault.system.inj (Except.error.inj h)).1
    have hwalk : d.locate p.parent.text = if p.parent.text = [] then .error .noEntry
        else if isLongPath p.parent.text then .error .nameTooLong
        else d.walk false maxLinks (d.pathStart p.parent.text) (Path.pieces p.parent.text) := rfl
    rw [hwalk, if_neg hp.parent.text_ne_nil] at hlocate
    split_ifs at hlocate
    · cases hlocate
    · exact walk_noEntry hlocate
  · rename_i hlocate
    exact (locateMade_eq_ok_iff.1 hlocate).2.2.passable fun _ _ heq => by cases heq
  · rename_i hlocate
    exact (locateMade_eq_ok_iff.1 hlocate).2.2.passable fun _ _ heq =>
      (Found.present.inj heq).2.symm
  · cases h
  · cases h

/-- A directory is made at a path alike, or not made. -/
theorem Beside.makeDirectory (h : Beside goal d d') (hp : p.IsRead)
    (havoids : d.Avoids goal p.text) :
    (∃ f, d.makeDirectory p = .error f ∧ d'.makeDirectory p = .error f) ∨
    ∃ q e e', d.makeDirectory p = .ok (q, e) ∧ d'.makeDirectory p = .ok (q, e') ∧
      Beside goal e e' ∧ d.Admits e ∧ d.Onward (d.namesStart p.root) p.names q := by
  unfold Disk.makeDirectory
  dsimp only
  split_ifs
  · exact .inl ⟨_, rfl, rfl⟩
  · exact .inl ⟨_, rfl, rfl⟩
  obtain hnil | ⟨front, name, hnames⟩ := List.eq_nil_or_concat' p.names
  · rw [hnil]
    exact .inl ⟨_, rfl, rfl⟩
  have hparent : p.parent.names = front := by
    rw [Path.parent, hnames, List.dropLast_concat]
  have hout := (avoids_text_iff hp).1 havoids
  rw [hnames] at hout
  have haside : d.Avoids goal p.parent.text := (avoids_text_iff hp.parent).2 fun hcomes => by
    rw [hparent] at hcomes
    exact hout (hcomes.append [name])
  have hlast : p.names.getLast? = some name := by simp [hnames]
  rw [hlast]
  unfold Disk.locate
  rw [h.locateMade_eq haside]
  rcases hlocate : d.locateMade false p.parent.text with e | ⟨q, entry⟩ | q
  · exact .inl ⟨_, rfl, rfl⟩
  · cases entry with
    | directory =>
      have honward := onward_of_locate hp.parent (SameBut.refl none d).admits hlocate
      rw [hparent] at honward
      have hisName := (hp.names name (by simp [hnames])).1
      dsimp only
      obtain ⟨f, hf, hf', -⟩ | ⟨e, e', he, he', hbeside, hadmits, hup, hpass⟩ :=
        h.makeIn fun hup (heq : q ++ [name] = goal) => hout (heq ▸ honward.comesBy hisName hup)
      · exact .inl ⟨_, by rw [hf]; rfl, by rw [hf']; rfl⟩
      · refine .inr ⟨_, e, e', by rw [he]; rfl, by rw [he']; rfl, hbeside, hadmits, ?_⟩
        rw [hnames]
        exact honward.snoc hisName hup hpass
    | _ => exact .inl ⟨_, rfl, rfl⟩
  · exact .inl ⟨_, rfl, rfl⟩

/-! ## Making all directories of a path -/

/-- Directories were made alike on a disk and beside it. -/
structure MadeAlike (goal : Location) (d : Disk) (p : Path)
    (m m' : Except DiskFault Location × Disk) : Prop where
  result : m'.1 = m.1
  disk : Beside goal m.2 m'.2
  admits : d.Admits m.2
  onward : d.Passable (d.namesStart p.root) → ∀ q, m.1 = .ok q → m.2.find? q ≠ some .closed →
    d.Onward (d.namesStart p.root) p.names q

theorem MadeAlike.error (h : Beside goal d d') (fault : DiskFault) :
    MadeAlike goal d p (.error fault, d) (.error fault, d') :=
  ⟨rfl, h, (SameBut.refl none d).admits, nofun⟩

theorem MadeAlike.directoryAt {e' : Disk} (h : Beside goal e e') (hp : p.IsRead)
    (hadmits : d.Admits e) (havoids : d.Avoids goal p.text) (fault : DiskFault) :
    MadeAlike goal d p (e.directoryAt p fault, e) (e'.directoryAt p fault, e') := by
  have hlocate : e'.locate p.text = e.locate p.text := h.locateMade_eq (havoids.of_admits hadmits)
  refine ⟨by simp only [Disk.directoryAt, hlocate], h, hadmits, fun _ q hq hopen => ?_⟩
  unfold Disk.directoryAt at hq
  split at hq
  · rename_i hthere
    exact onward_of_locate hp hadmits (Except.ok.inj hq ▸ hthere)
  · rename_i hthere
    exact absurd (find?_of_present (Except.ok.inj hq ▸ hthere)) hopen
  · cases hq

/-- The last directory of a path is made in those above it, if they could be made. -/
def makeLast (p : Path) (name : Text) :
    Except DiskFault Location × Disk → Except DiskFault Location × Disk
  | (.error fault, d) => (.error fault, d)
  | (.ok place, d) =>
    match d.makeIn place name with
    | .ok (place, d) => (.ok place, d)
    | .error e => (d.directoryAt p (.system e p.text), d)

theorem makeDirectories_cons (root : Text) (d : Disk) (room : Nat) (name : Text)
    (above : List Text) :
    makeDirectories root d (room + 1) (name :: above) =
      match d.makeDirectory ⟨root, (name :: above).reverse⟩ with
      | .ok (place, d) => (.ok place, d)
      | .error (.system .noEntry _) =>
        makeLast ⟨root, (name :: above).reverse⟩ name (makeDirectories root d room above)
      | .error .nullCharacter => (.error .nullCharacter, d)
      | .error fault => (d.directoryAt ⟨root, (name :: above).reverse⟩ fault, d) := by
  rw [makeDirectories]
  rfl

theorem MadeAlike.makeLast {root : Text} {above : List Text}
    {m m' : Except DiskFault Location × Disk} (h : MadeAlike goal d ⟨root, above.reverse⟩ m m')
    (hp : (Path.mk root (name :: above).reverse).IsRead)
    (havoids : d.Avoids goal (Path.mk root (name :: above).reverse).text)
    (hpass : d.Passable (d.namesStart root)) :
    MadeAlike goal d ⟨root, (name :: above).reverse⟩
      (Disk.makeLast ⟨root, (name :: above).reverse⟩ name m)
      (Disk.makeLast ⟨root, (name :: above).reverse⟩ name m') := by
  obtain ⟨result, e⟩ := m
  obtain ⟨result', e'⟩ := m'
  obtain rfl : result' = result := h.result
  have hnames : (name :: above).reverse = above.reverse ++ [name] := List.reverse_cons
  have hisName : Path.isName name = true := (hp.names name (by simp)).1
  have hout := (avoids_text_iff hp).1 havoids
  rcases result' with fault | q
  · exact ⟨rfl, h.disk, h.admits, nofun⟩
  have hbeside : Beside goal e e' := h.disk
  by_cases hclosed : e.find? q = some .closed
  · have hdenied : e.makeIn q name = .error .denied := if_pos hclosed
    have hdenied' : e'.makeIn q name = .error .denied :=
      if_pos (hbeside.find?_eq_closed_iff.2 hclosed)
    simp only [Disk.makeLast, hdenied, hdenied']
    exact .directoryAt hbeside hp h.admits havoids _
  have honward := h.onward hpass q rfl hclosed
  obtain ⟨f, hf, hf', -⟩ | ⟨e₁, e₁', he, he', hbeside', hadmits, hup, hnext⟩ :=
    hbeside.makeIn fun hup (heq : q ++ [name] = goal) => hout (by
      dsimp only
      rw [hnames, ← heq]
      exact honward.comesBy hisName hup)
  · simp only [Disk.makeLast, hf, hf']
    exact .directoryAt hbeside hp h.admits havoids _
  · simp only [Disk.makeLast, he, he']
    refine ⟨rfl, hbeside', h.admits.trans hadmits, fun _ q' hq _ => ?_⟩
    obtain rfl := Except.ok.inj hq
    dsimp only
    rw [hnames]
    exact honward.snoc hisName hup (h.admits.passable _ hnext)

theorem Beside.makeDirectories (h : Beside goal d d') {root : Text} :
    ∀ (reversed : List Text) (room : Nat), (Path.mk root reversed.reverse).IsRead →
      d.Avoids goal (Path.mk root reversed.reverse).text →
        MadeAlike goal d ⟨root, reversed.reverse⟩ (Disk.makeDirectories root d room reversed)
          (Disk.makeDirectories root d' room reversed)
  | [], room, hp, _ => by
    have hnil : ∀ b : Disk, Disk.makeDirectories root b room [] = (.ok (b.namesStart root), b) :=
      fun b => by rw [Disk.makeDirectories, namesStart]
    rw [hnil, hnil]
    refine ⟨by rw [namesStart, namesStart, h.here], h, (SameBut.refl none d).admits, ?_⟩
    intro hpass q hq _
    obtain rfl := Except.ok.inj hq
    exact .refl hpass
  | name :: above, 0, _, _ => .error h _
  | name :: above, room + 1, hp, havoids => by
    have hnames : (name :: above).reverse = above.reverse ++ [name] := List.reverse_cons
    have habove : (Path.mk root above.reverse).IsRead := ⟨hp.root, fun n hn => hp.names n (by
      rw [hnames]
      exact List.mem_append_left _ hn)⟩
    have hout := (avoids_text_iff hp).1 havoids
    have ih := makeDirectories h above room habove <|
      (avoids_text_iff habove).2 fun hcomes => hout (by
        dsimp only
        rw [hnames]
        exact hcomes.append [name])
    rw [makeDirectories_cons, makeDirectories_cons]
    obtain ⟨f, hf, hf'⟩ | ⟨q, e, e', he, he', hbeside, hadmits, honward⟩ :=
      h.makeDirectory hp havoids
    · rw [hf, hf']
      cases f with
      | nullCharacter => exact .error h _
      | tooDeep => exact .directoryAt h hp (SameBut.refl none d).admits havoids _
      | system errno t =>
        cases errno with
        | noEntry =>
          have hpass : d.Passable (d.namesStart root) := passable_of_makeDirectory hp hf
          exact ih.makeLast hp havoids hpass
        | _ => exact .directoryAt h hp (SameBut.refl none d).admits havoids _
    · rw [he, he']
      exact ⟨rfl, hbeside, hadmits, fun _ q' hq _ => Except.ok.inj hq ▸ honward⟩

end Disk

namespace Explorer

open Disk

variable {d d' : Disk} {goal : Location} {p : Path}

/-- A file was written at a path of a disk and, perhaps with another text, beside it. -/
inductive WroteAlike (goal : Location) (d : Disk) (p : Path) :
    Option DiskFault × Disk → Option DiskFault × Disk → Prop
  | refused {fault e e'} (hdisk : Beside goal e e') (hadmits : d.Admits e) :
    WroteAlike goal d p (some fault, e) (some fault, e')
  | written {e e' y place} (hdisk : Beside goal e y) (hadmits : d.Admits e)
    (hsame : SameBut (some place) y e') (hleads : e'.LeadsTo p.text place) :
    WroteAlike goal d p (none, e) (none, e')

theorem writeBelow_beside (h : Beside goal d d') (hp : p.IsRead) (havoids : d.Avoids goal p.text)
    (t t' : Text) : WroteAlike goal d p (writeBelow d p t) (writeBelow d' p t') := by
  have hparent : Path.mk p.root p.parent.names.reverse.reverse = p.parent := by
    rw [List.reverse_reverse]
    rfl
  have haside : d.Avoids goal p.parent.text := (avoids_text_iff hp.parent).2 fun hcomes => by
    have hmore : ∃ more, p.names = p.parent.names ++ more := by
      obtain ⟨more, hmore⟩ := List.dropLast_prefix p.names
      exact ⟨more, hmore.symm⟩
    obtain ⟨more, hmore⟩ := hmore
    refine (avoids_text_iff hp).1 havoids ?_
    rw [hmore]
    exact hcomes.append more
  have hmade := h.makeDirectories p.parent.names.reverse maxMade (by rw [hparent]; exact hp.parent)
    (by rw [hparent]; exact haside)
  unfold writeBelow
  rcases hm : makeDirectories p.root d maxMade p.parent.names.reverse with ⟨result, e⟩
  rcases hm' : makeDirectories p.root d' maxMade p.parent.names.reverse with ⟨result', e'⟩
  rw [hm, hm'] at hmade
  obtain rfl : result' = result := hmade.result
  rcases result' with fault | _
  · exact .refused hmade.disk hmade.admits
  obtain ⟨f, hf, hf'⟩ | ⟨q, x, x', hne, hx, hx', hbeside⟩ :=
    hmade.disk.create (havoids.of_admits hmade.admits)
  · simp only [Disk.write, hf, hf', Except.map]
    exact .refused hmade.disk hmade.admits
  · simp only [Disk.write, hx, hx', Except.map]
    have hsame : ∀ b : Bytes, SameBut (some q) x' (x'.writeAt q 0 b) := sameBut_writeAt x' q 0
    refine .written (hbeside.writeAt hne 0 _) ?_ ((hsame _).symm.trans (hsame _))
      ((created_of_create hx').leads.grows (hsame _).grows)
    exact (hmade.admits.trans (created_of_create hx).admits).trans (sameBut_writeAt x q 0 _).admits

end Explorer

end ShellProbe
