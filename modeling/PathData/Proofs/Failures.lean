import PathData.Geometry.Fitting
import PathData.Proofs.Commands
import PathData.Proofs.Outcomes
import PathData.Proofs.RoundedDoubles

namespace PathData

open scoped PathData.Scalar
open Fault (bind_ok)

namespace Fault

theorem mapM_error {g : α → Except Fault β} {xs : List α} (failed : xs.mapM g = .error cause) :
    ∃ x ∈ xs, g x = .error cause := by
  induction xs with
  | nil => cases failed
  | cons x rest ih =>
    rw [List.mapM_cons] at failed
    rcases bind_error.1 failed with here | ⟨y, _, later⟩
    · exact ⟨x, List.mem_cons_self, here⟩
    · rcases bind_error.1 later with later | ⟨ys, _, made⟩
      · obtain ⟨x, member, fails⟩ := ih later
        exact ⟨x, List.mem_cons_of_mem _ member, fails⟩
      · cases made

end Fault

theorem Body.numbers_mapNumbers (g : α → Except Fault α) (b : Body α) :
    (b.mapNumbers g).map Body.numbers = b.numbers.mapM g := by
  have bound (x : Except Fault α) (k : α → Except Fault (Body α)) :
      (x >>= k).map Body.numbers = x >>= fun y => (k y).map Body.numbers := by
    cases x <;> rfl
  have mapped (x : Except Fault α) (h : α → Body α) :
      (h <$> x).map Body.numbers = (fun y => (h y).numbers) <$> x := by
    cases x <;> rfl
  cases b with
  | close => rfl
  | _ => simp [mapNumbers, mapNumbers.point, numbers, args, bound, mapped]

namespace Pipeline

variable {α : Type} [Scalar α]

theorem roundCommand_error {o : Options α} {c : Command α}
    (failed : o.roundCommand error c = .error cause) :
    ∃ x ∈ c.body.numbers, o.round error x = .error cause := by
  rcases Fault.bind_error.1 failed with failed | ⟨body, _, made⟩
  · apply Fault.mapM_error
    rw [← Body.numbers_mapNumbers, failed]
    rfl
  · cases made

end Pipeline

open Pipeline

end PathData
