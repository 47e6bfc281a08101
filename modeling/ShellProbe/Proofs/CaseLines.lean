import Mathlib.Data.List.Basic
import ShellProbe.Instrument.CaseLine
import ShellProbe.Proofs.Lines

/-!
# Commands of case lines

The command of a case line is part of the line (`command_sublist`): a classification only cuts.
-/

namespace ShellProbe

namespace Text

theorem trim_sublist (t : Text) : t.trim.Sublist t :=
  (dropEndWhile_isPrefix _ _).sublist.trans (List.dropWhile_suffix _).sublist

end Text

namespace CaseLine

theorem afterPattern?_suffix {s : Text} : ∀ {t : Text} {depth : Nat},
    afterPattern? depth t = some s → s <:+ t
  | [], _, h => by simp [afterPattern?] at h
  | c :: t, depth, h => by
    have htail : ∀ {depth : Nat}, afterPattern? depth t = some s → s <:+ c :: t :=
      fun h => (afterPattern?_suffix h).trans (List.suffix_cons c t)
    unfold afterPattern? at h
    split_ifs at h
    · split at h
      · simp at h
      · rename_i d t
        have hd : s <:+ d :: t := (afterPattern?_suffix h).trans (List.suffix_cons d t)
        exact hd.trans (List.suffix_cons c _)
    · exact htail h
    · split at h
      · rw [← Option.some.inj h]
        exact List.suffix_cons c t
      · exact htail h
    · exact htail h

theorem dropPattern_suffix (t : Text) : dropPattern t <:+ t := by
  have hstart : t.trimStart <:+ t := List.dropWhile_suffix _
  unfold dropPattern
  simp only
  rcases h : afterPattern? 0 _ with _ | u
  · exact hstart
  · refine (afterPattern?_suffix h).trans (List.IsSuffix.trans ?_ hstart)
    split
    · rename_i v hv
      rw [hv]
      exact List.suffix_cons _ v
    · exact List.suffix_refl _

theorem trimQuotes_sublist (t : Text) : (trimQuotes t).Sublist t := by
  unfold trimQuotes
  have htrim := t.trim_sublist
  split
  · exact List.nil_sublist t
  · rename_i c u htu
    rw [htu] at htrim
    split_ifs
    · exact ((List.dropLast_sublist u).trans (List.sublist_cons_self c u)).trans htrim
    · exact htrim

theorem nonempty?_eq_some {t c : Text} (h : nonempty? t = some c) : c = t := by
  unfold nonempty? at h
  split_ifs at h
  exact (Option.some.inj h).symm

/-- The command of a line is part of the line. -/
theorem command_sublist {line command : Text} (h : (classify line).command? = some command) :
    command.Sublist line := by
  have htrim := line.trim_sublist
  unfold classify at h
  simp only at h
  split at h
  · simp [command?] at h
  · split at h
    · simp only [command?] at h
      rw [nonempty?_eq_some h]
      refine (Text.trim_sublist _).trans ((List.take_sublist _ _).trans ?_)
      have hpattern := (dropPattern_suffix _).sublist.trans htrim
      exact (Text.dropEndWhile_isPrefix _ _).sublist.trans hpattern
    · split at h
      · simp [command?] at h
      · split at h
        · simp [command?] at h
        · simp only [command?] at h
          rw [nonempty?_eq_some h]
          exact (trimQuotes_sublist _).trans htrim

end CaseLine

end ShellProbe
