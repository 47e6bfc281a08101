import ShellProbe.Proofs.Decoding
import ShellProbe.Proofs.Kinds
import ShellProbe.Proofs.WorkDirectory
import ShellProbe.Proofs.Writes

/-!
# Copies of script files

Whatever bytes a script file holds, its copy holds as many newline bytes, and all the bytes of the
script if it has no keyword of the kinds that are instrumented (`copied_copy`).
-/

namespace ShellProbe

namespace Disk

variable {d d' : Disk} {path : Text}

/-- What is written is read back, but from a device, which swallows it. -/
theorem read_of_write {bytes : Bytes} (h : d.write path bytes = .ok d') :
    d'.read path = .ok bytes ∨ d'.entry? path = some .sink := by
  unfold write at h
  rcases hcreate : d.create path with f | ⟨place, opened⟩
  · simp [hcreate, Except.map] at h
  simp only [hcreate, Except.map, Except.ok.injEq] at h
  subst h
  have hnull : hasNull path = false := by
    by_contra hnull
    rw [create, if_pos (Bool.not_eq_false _ ▸ hnull)] at hcreate
    cases hcreate
  have hcreated := created_of_create hcreate
  obtain ⟨entry, hlocate⟩ := hcreated.leads
  have hways := (sameBut_writeAt opened place 0 bytes).waysIn
  rcases hcreated.after with ⟨x, hfile⟩ | ⟨-, hsink⟩
  · have hentry : entry? (opened.writeAt place 0 bytes) path = some (.file bytes x) :=
      entry?_eq_some_iff.2 ⟨hnull, place, hways.locate_present hlocate (find?_writeAt hfile bytes)
        fun hlink => by simp [Entry.IsLink] at hlink⟩
    exact .inl <| read_of_entry? hentry
  · have hafter : (opened.writeAt place 0 bytes).find? place = some .sink := by
      unfold writeAt
      cases bytes <;> simp [hsink]
    exact .inr <| entry?_eq_some_iff.2 ⟨hnull, place, hways.locate_present hlocate hafter
      fun hlink => by simp [Entry.IsLink] at hlink⟩

end Disk

namespace Instrument

open Utf8 Explorer

variable {constructs : List Construct} {script : Text} {content : Bytes}

theorem newline_not_mem_siteDigest (path : Text) : Text.newline ∉ siteDigest path :=
  not_mem_hex (by decide) 8 _

theorem count_newline_bytes (h : Text.newline ∉ script) (constructs : List Construct)
    (content : Bytes) :
    (bytes constructs script content).count newlineByte = content.count newlineByte := by
  rw [bytes, count_newline_encode, instrumentScript,
    count_newline_instrument h (newline_not_mem_siteDigest script), ← count_newline_encode,
    encode_decode]

/-- No word in command position outside here-documents is a keyword of one of the kinds. -/
def LacksKeywords (constructs : List Construct) (text : Text) : Prop :=
  ∀ w ∈ visitedWords text, ∀ k ∈ constructs, kind? w ≠ some k

theorem bytes_of_lacksKeywords (h : LacksKeywords constructs (decode content)) (script : Text) :
    bytes constructs script content = content := by
  have hsame : instrumentScript constructs script (decode content) = decode content :=
    @instrument_of_absent (.ofPath constructs script) _ h 1
  rw [bytes, hsame, encode_decode]

/-- What comes of copying a script file that holds some content into a directory. -/
inductive Copied (disk : Disk) (constructs : List Construct) (script : Text) (directory : Path)
    (content : Bytes) : Except CopyFault (Path × Disk) → Prop
  | script (fault : Fault)
      (h : fault? (.ofPath constructs script) 1 (decode content) = some fault)
      (keyword : ¬ LacksKeywords constructs (decode content)) :
      Copied disk constructs script directory content (.error (.script fault))
  | disk (fault : DiskFault)
      (h : disk.create (copyPath disk script directory).text = .error fault) :
      Copied disk constructs script directory content (.error (.disk fault))
  | copied (copy : Bytes) (disk' : Disk)
      (holds : disk'.read (copyPath disk script directory).text = .ok copy ∨
        disk'.entry? (copyPath disk script directory).text = some .sink)
      (count_eq : copy.count newlineByte = content.count newlineByte)
      (same : LacksKeywords constructs (decode content) → copy = content) :
      Copied disk constructs script directory content
        (.ok (copyPath disk script directory, disk'))

theorem copied_copy (disk : Disk) (constructs : List Construct) (script : Text) (directory : Path)
    (content : Bytes) (hread : disk.read (Path.ofText script).text = .ok content)
    (hscript : Text.newline ∉ script) :
    Copied disk constructs script directory content (copy disk constructs script directory) := by
  rw [copy_eq, fileBytes_eq, hread]
  dsimp only
  rcases hfault : fault? (.ofPath constructs script) 1 (decode content) with _ | fault
  · dsimp only
    rcases hwrite : disk.write (copyPath disk script directory).text
      (bytes constructs script content) with fault | disk'
    · refine .disk fault ?_
      unfold Disk.write at hwrite
      rcases hcreate : disk.create (copyPath disk script directory).text with f | created <;>
        rw [hcreate] at hwrite
      · simpa [Except.map] using hwrite
      · cases hwrite
    · exact .copied _ disk' (Disk.read_of_write hwrite) (count_newline_bytes hscript _ _)
        fun h => bytes_of_lacksKeywords h script
  · refine .script fault hfault fun hlacks => ?_
    rw [@fault?_of_absent (.ofPath constructs script) _ hlacks] at hfault
    cases hfault

/-- A copy of a script can be made in a directory that is empty. -/
theorem writable_copies {d : Disk} (hdirectory : d.find? ["copies"] = some .directory)
    (hempty : ∀ name, d.find? ["copies", name] = none) :
    d.Writable (copyPath d "s.sh" ⟨"/", ["copies"]⟩).text := by
  obtain ⟨hslash, hisName, hdots⟩ := copyName_plain (scriptPlace d "s.sh") "s.sh"
  have hlength : (copyName (scriptPlace d "s.sh") (.ofText "s.sh")).length = 13 := by
    simp only [copyName, siteDigest, List.length_append, Numeral.length_hex]
    decide
  have hnull : .scalar (Char.ofNat 0) ∉ copyName (scriptPlace d "s.sh") (.ofText "s.sh") := by
    simp only [copyName, siteDigest, List.mem_append, not_or]
    exact ⟨⟨not_mem_hex (by decide) 8 _, by decide⟩, by decide⟩
  change d.Writable (Path.mk "/" ["copies", copyName (scriptPlace d "s.sh") (.ofText "s.sh")]).text
  generalize copyName (scriptPlace d "s.sh") (.ofText "s.sh") = name at *
  have htext : (Path.mk "/" ["copies", name]).text = "/copies/" ++ name := by
    simp [Path.text, Text.joinWith, Text.ofString]
  have hfront : (Text.ofString "/copies/").length = 8 ∧
      .scalar (Char.ofNat 0) ∉ Text.ofString "/copies/" := by decide
  have hshort : Disk.isLongName name = false :=
    decide_eq_false (Nat.not_lt.2 ((length_encode_le name).trans (by rw [hlength]; decide)))
  refine ⟨["copies", name], _, Disk.create_absent (by simp) ?_ (fun front hprefix hne => ?_)
    (hempty name) ?_ ?_, by simp [hempty]⟩
  · have hcopies : Path.isName "copies" = true ∧ Text.ofString "copies" ≠ ".." ∧
        Disk.isLongName "copies" = false ∧ .scalar '/' ∉ Text.ofString "copies" := by decide
    simpa using ⟨hcopies, hisName, hdots, hshort, hslash⟩
  · obtain rfl | ⟨rest, rfl, hrest⟩ := List.prefix_cons_iff.1 hprefix
    · rfl
    obtain rfl | ⟨last, rfl, hlast⟩ := List.prefix_cons_iff.1 hrest
    · exact hdirectory
    · obtain rfl := List.prefix_nil.1 hlast
      exact absurd rfl hne
  · rw [htext]
    refine decide_eq_false (Nat.not_lt.2 ((length_encode_le _).trans ?_))
    rw [List.length_append, hlength, hfront.1]
    decide
  · rw [htext]
    simp [Disk.hasNull, hfront.2, hnull]

/-- A script with a truncated sequence, a stray byte and an overlong form, for kinds of which it has
keywords and for kinds of which it has none. -/
theorem copied_copy_damaged :
    let content : Bytes := encode "if a \n" ++ [0xE2, 0x82, 0x0A, 0xFF] ++ encode "; then . b; fi"
      ++ [0xC0, 0x8A]
    let disk : Disk := ⟨[(["s.sh"], .file content false), (["copies"], .directory)], []⟩
    let directory : Path := ⟨"/", ["copies"]⟩
    let place := copyPath disk "s.sh" directory
    disk.read (Path.ofText "s.sh").text = .ok content ∧ Text.newline ∉ Text.ofString "s.sh" ∧
      (∃ copied disk', copy disk Construct.all "s.sh" directory = .ok (place, disk') ∧
        disk'.read place.text = .ok copied ∧ copied.count newlineByte = 2) ∧
      ∃ disk', copy disk [.loopWhile, .patternMatch] "s.sh" directory = .ok (place, disk') ∧
        disk'.read place.text = .ok content := by
  intro content disk directory place
  have hread : disk.read (Path.ofText "s.sh").text = .ok content := by
    have hpieces : Path.pieces (Path.ofText "s.sh").text = [Text.ofString "s.sh"] := by decide
    have hstep : Disk.IsStep false "s.sh" [] := ⟨by decide, by decide, by decide, by decide⟩
    have hlocate : disk.locate (Path.ofText "s.sh").text
        = .ok (.present ["s.sh"] (.file content false)) := by
      refine Disk.locateMade_eq_ok_iff.2 ⟨by decide, by decide, ?_⟩
      rw [hpieces]
      exact .on rfl hstep rfl (by simp [Entry.IsLink]) (.stop rfl)
    exact Disk.read_of_entry? <| Disk.entry?_eq_some_iff.2 ⟨by decide, ["s.sh"], hlocate⟩
  have hscript : Text.newline ∉ Text.ofString "s.sh" := by decide
  have hwritable : disk.Writable place.text := writable_copies rfl fun _ => rfl
  -- The copy can be made, and so the theorem says what it holds.
  have made : ∀ constructs, fault? (.ofPath constructs "s.sh") 1 (decode content) = none →
      ∃ copied disk', copy disk constructs "s.sh" directory = .ok (place, disk') ∧
        disk'.read place.text = .ok copied ∧ copied.count newlineByte = 2 ∧
          (LacksKeywords constructs (decode content) → copied = content) := by
    intro constructs hfault
    obtain ⟨q, x, disk', hwrite, hlocate⟩ :=
      hwritable.locate_write (bytes constructs "s.sh" content)
    have hcopy : copy disk constructs "s.sh" directory = .ok (place, disk') := by
      rw [copy_eq, fileBytes_eq, hread]
      simp only [hfault, place, hwrite]
    have hcopied := copied_copy disk constructs "s.sh" directory content hread hscript
    rw [hcopy] at hcopied
    cases hcopied with
    | copied copied _ holds count_eq same =>
      refine ⟨copied, disk', hcopy, holds.resolve_right fun hsink => ?_,
        count_eq.trans (by decide), same⟩
      rw [Disk.entry?_eq_some_iff.2 ⟨hwritable.hasNull, q, hlocate⟩] at hsink
      cases hsink
  refine ⟨hread, hscript, ?_, ?_⟩
  · obtain ⟨copied, disk', hcopy, hcopied, hcount, -⟩ := made Construct.all (by decide +kernel)
    exact ⟨copied, disk', hcopy, hcopied, hcount⟩
  · obtain ⟨copied, disk', hcopy, hcopied, -, hsame⟩ :=
      made [.loopWhile, .patternMatch] (by decide +kernel)
    have hlacks : LacksKeywords [.loopWhile, .patternMatch] (decode content) := by
      unfold LacksKeywords
      decide +kernel
    exact ⟨disk', hcopy, hsame hlacks ▸ hcopied⟩

end Instrument

end ShellProbe
