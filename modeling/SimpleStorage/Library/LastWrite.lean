import SimpleStorage.Library.Program

/-!
# The last write is what is read

What is observed of a reference may be a cell that some of the requests write and the others leave
alone.  After a run it holds what the last of those that write it has written.

* `lastWrite`: what a log leaves in the cell.
* `lastWrite_eq_iff`: there is such a request, and none behind it.
* `observe_follow`: the reference holds this.
-/

namespace SimpleStorage
namespace Program

variable {ε α ρ μ β : Type} (writes : ρ → Except ε α → Option β)

/-- What a log leaves in a cell that held this. -/
def lastWrite (log : List (ρ × Except ε α)) (held : β) : β :=
  (log.reverse.findSome? fun entry => writes entry.1 entry.2).getD held

/-- Nobody writes the cell. -/
def Unwritten (log : List (ρ × Except ε α)) : Prop := ∀ entry ∈ log, writes entry.1 entry.2 = none

variable {writes}

theorem lastWrite_cons (entry : ρ × Except ε α) (log : List (ρ × Except ε α)) (held : β) :
    lastWrite writes (entry :: log) held = lastWrite writes log ((writes entry.1 entry.2).getD held) := by
  rw [lastWrite, lastWrite, List.reverse_cons, List.findSome?_append]
  cases log.reverse.findSome? fun entry => writes entry.1 entry.2 <;> simp

/-- **Where the value comes from**: it was there, or a request wrote it, and none has since. -/
theorem lastWrite_eq_iff {log : List (ρ × Except ε α)} {held value : β} :
    lastWrite writes log held = value ↔ Unwritten writes log ∧ held = value ∨
      ∃ before entry after, log = before ++ entry :: after ∧ writes entry.1 entry.2 = some value ∧
        Unwritten writes after := by
  rw [lastWrite]
  cases hfound : log.reverse.findSome? fun entry => writes entry.1 entry.2 with
  | none =>
    rw [List.findSome?_eq_none_iff] at hfound
    have hnone : Unwritten writes log := fun entry hentry => hfound entry (List.mem_reverse.mpr hentry)
    refine ⟨fun h => .inl ⟨hnone, h⟩, ?_⟩
    rintro (⟨-, h⟩ | ⟨before, entry, after, rfl, hwrites, -⟩)
    · exact h
    · rw [hnone entry (by simp)] at hwrites
      cases hwrites
  | some found =>
    obtain ⟨after, entry, before, hlog, hwrites, hafter⟩ := List.findSome?_eq_some_iff.mp hfound
    have hsplit : log = before.reverse ++ entry :: after.reverse := by
      rw [← List.reverse_reverse log, hlog]
      simp
    show found = value ↔ _
    constructor
    · rintro rfl
      exact .inr ⟨before.reverse, entry, after.reverse, hsplit, hwrites,
        fun e he => hafter e (List.mem_reverse.mp he)⟩
    · rintro (⟨hnone, -⟩ | ⟨before', entry', after', hlog', hwrites', hafter'⟩)
      · rw [hnone entry (by simp [hsplit])] at hwrites
        cases hwrites
      · -- Both were found from the end.
        have hfound' : (log.reverse.findSome? fun entry => writes entry.1 entry.2) = some value :=
          List.findSome?_eq_some_iff.mpr ⟨after'.reverse, entry', before'.reverse, by simp [hlog'], hwrites',
            fun e he => hafter' e (List.mem_reverse.mp he)⟩
        rw [hfound, Option.some.injEq] at hfound'
        exact hfound'

variable {next : ρ → Except ε α → μ → μ} {answers : ρ → Except ε α → μ → Prop}

/-- **The reference holds the last write**, if every request does to the cell what it says. -/
theorem observe_follow {observe : μ → β}
    (hwrites : ∀ request outcome m, answers request outcome m →
      observe (next request outcome m) = (writes request outcome).getD (observe m))
    {log : List (ρ × Except ε α)} {m : μ} (hlog : Answered next answers log m) :
    observe (follow next log m) = lastWrite writes log (observe m) := by
  induction log generalizing m with
  | nil => rfl
  | cons entry log ih =>
    show observe (follow next log (next entry.1 entry.2 m)) = _
    rw [ih hlog.2, hwrites _ _ _ hlog.1, lastWrite_cons]

end Program
end SimpleStorage
