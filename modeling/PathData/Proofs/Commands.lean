import PathData.Command.Implied
import PathData.Config.Options
import PathData.Geometry.Segment
import PathData.Proofs.FilterForms

namespace PathData

open scoped PathData.Scalar
open Fault (bind_ok pure_ok)

variable {α : Type}

theorem Point.ext {p q : Point α} (x : p.x = q.x) (y : p.y = q.y) : p = q := by
  cases p
  cases q
  exact congr (congrArg mk x) y

def Point.Related (R : α → α → Prop) (p q : Point α) : Prop :=
  R p.x q.x ∧ R p.y q.y

namespace Body

-- Two bodies of one kind with related numbers; the flags of an arc are the same.
inductive Related (R : α → α → Prop) : Body α → Body α → Prop where
  | move {p q : Point α} (stop : p.Related R q) : Related R (.move p) (.move q)
  | line {p q : Point α} (stop : p.Related R q) : Related R (.line p) (.line q)
  | horizontal {a b : α} (x : R a b) : Related R (.horizontal a) (.horizontal b)
  | vertical {a b : α} (y : R a b) : Related R (.vertical a) (.vertical b)
  | cubic {a b p a' b' q : Point α} (c1 : a.Related R a') (c2 : b.Related R b')
      (stop : p.Related R q) : Related R (.cubic a b p) (.cubic a' b' q)
  | smoothCubic {b p b' q : Point α} (c2 : b.Related R b') (stop : p.Related R q) :
      Related R (.smoothCubic b p) (.smoothCubic b' q)
  | quadratic {c p c' q : Point α} (control : c.Related R c') (stop : p.Related R q) :
      Related R (.quadratic c p) (.quadratic c' q)
  | smoothQuadratic {p q : Point α} (stop : p.Related R q) :
      Related R (.smoothQuadratic p) (.smoothQuadratic q)
  | arc {s : ArcShape α} {rx ry rotation : α} {p q : Point α} (byX : R s.rx rx) (byY : R s.ry ry)
      (turned : R s.rotation rotation) (stop : p.Related R q) :
      Related R (.arc s p) (.arc { s with rx, ry, rotation } q)
  | close : Related R .close .close

theorem mapPoint_ok {g : α → Except Fault α} {p q : Point α} :
    mapNumbers.point g p = .ok q ↔ p.Related (fun x y => g x = .ok y) q := by
  unfold mapNumbers.point Point.Related
  cases q
  simp only [bind_ok, pure_ok, Point.mk.injEq]
  constructor
  · rintro ⟨x, onX, y, onY, rfl, rfl⟩
    exact ⟨onX, onY⟩
  · rintro ⟨onX, onY⟩
    exact ⟨_, onX, _, onY, rfl, rfl⟩

theorem mapNumbers_ok {g : α → Except Fault α} {b b' : Body α} :
    b.mapNumbers g = .ok b' ↔ Related (fun x y => g x = .ok y) b b' := by
  constructor
  · intro mapped
    cases b with
    | horizontal x =>
      obtain ⟨y, onX, made⟩ := bind_ok.1 mapped
      exact pure_ok.1 made ▸ .horizontal onX
    | vertical y =>
      obtain ⟨x, onY, made⟩ := bind_ok.1 mapped
      exact pure_ok.1 made ▸ .vertical onY
    | close => exact pure_ok.1 mapped ▸ .close
    | arc s p =>
      obtain ⟨rx, byX, mapped⟩ := bind_ok.1 mapped
      obtain ⟨ry, byY, mapped⟩ := bind_ok.1 mapped
      obtain ⟨rotation, turned, mapped⟩ := bind_ok.1 mapped
      obtain ⟨q, stop, made⟩ := bind_ok.1 mapped
      exact pure_ok.1 made ▸ .arc byX byY turned (mapPoint_ok.1 stop)
    | move p =>
      obtain ⟨q, stop, made⟩ := bind_ok.1 mapped
      exact pure_ok.1 made ▸ .move (mapPoint_ok.1 stop)
    | line p =>
      obtain ⟨q, stop, made⟩ := bind_ok.1 mapped
      exact pure_ok.1 made ▸ .line (mapPoint_ok.1 stop)
    | smoothQuadratic p =>
      obtain ⟨q, stop, made⟩ := bind_ok.1 mapped
      exact pure_ok.1 made ▸ .smoothQuadratic (mapPoint_ok.1 stop)
    | smoothCubic c p =>
      obtain ⟨c', c2, mapped⟩ := bind_ok.1 mapped
      obtain ⟨q, stop, made⟩ := bind_ok.1 mapped
      exact pure_ok.1 made ▸ .smoothCubic (mapPoint_ok.1 c2) (mapPoint_ok.1 stop)
    | quadratic c p =>
      obtain ⟨c', control, mapped⟩ := bind_ok.1 mapped
      obtain ⟨q, stop, made⟩ := bind_ok.1 mapped
      exact pure_ok.1 made ▸ .quadratic (mapPoint_ok.1 control) (mapPoint_ok.1 stop)
    | cubic a b p =>
      obtain ⟨a', c1, mapped⟩ := bind_ok.1 mapped
      obtain ⟨b', c2, mapped⟩ := bind_ok.1 mapped
      obtain ⟨q, stop, made⟩ := bind_ok.1 mapped
      exact pure_ok.1 made ▸ .cubic (mapPoint_ok.1 c1) (mapPoint_ok.1 c2) (mapPoint_ok.1 stop)
  · intro related
    cases related with
    | move stop => exact bind_ok.2 ⟨_, mapPoint_ok.2 stop, rfl⟩
    | line stop => exact bind_ok.2 ⟨_, mapPoint_ok.2 stop, rfl⟩
    | horizontal x => exact bind_ok.2 ⟨_, x, rfl⟩
    | vertical y => exact bind_ok.2 ⟨_, y, rfl⟩
    | cubic c1 c2 stop =>
      exact bind_ok.2 ⟨_, mapPoint_ok.2 c1, bind_ok.2 ⟨_, mapPoint_ok.2 c2,
        bind_ok.2 ⟨_, mapPoint_ok.2 stop, rfl⟩⟩⟩
    | smoothCubic c2 stop =>
      exact bind_ok.2 ⟨_, mapPoint_ok.2 c2, bind_ok.2 ⟨_, mapPoint_ok.2 stop, rfl⟩⟩
    | quadratic control stop =>
      exact bind_ok.2 ⟨_, mapPoint_ok.2 control, bind_ok.2 ⟨_, mapPoint_ok.2 stop, rfl⟩⟩
    | smoothQuadratic stop => exact bind_ok.2 ⟨_, mapPoint_ok.2 stop, rfl⟩
    | arc byX byY turned stop =>
      exact bind_ok.2 ⟨_, byX, bind_ok.2 ⟨_, byY, bind_ok.2 ⟨_, turned,
        bind_ok.2 ⟨_, mapPoint_ok.2 stop, rfl⟩⟩⟩⟩
    | close => rfl

def stop? : Body α → Option (Point α)
  | .move p | .line p | .smoothQuadratic p | .cubic _ _ p | .smoothCubic _ p | .quadratic _ p
  | .arc _ p => some p
  | .horizontal _ | .vertical _ | .close => none

theorem Related.stop_eq {R : α → α → Prop} (related : Related R b b') (stops : b.stop? = some p) :
    ∃ q, b'.stop? = some q ∧ p.Related R q := by
  cases related with
  | horizontal | vertical | close => cases stops
  | move stop | line stop | smoothQuadratic stop =>
    cases stops
    exact ⟨_, rfl, stop⟩
  | smoothCubic _ stop | quadratic _ stop =>
    cases stops
    exact ⟨_, rfl, stop⟩
  | cubic _ _ stop =>
    cases stops
    exact ⟨_, rfl, stop⟩
  | arc _ _ _ stop =>
    cases stops
    exact ⟨_, rfl, stop⟩

theorem endPoint_of_stop [Scalar α] {b : Body α} (stops : b.stop? = some p)
    (base start subpathStart : Point α) : b.endPoint base start subpathStart = base + p := by
  cases b <;> cases stops <;> rfl

theorem stop_shift [Scalar α] {b : Body α} (stops : b.stop? = some p) (d : Point α) :
    (b.shift d).stop? = some (p + d) := by
  cases b <;> cases stops <;> rfl

-- The arguments that are rounded: all but the flags of an arc.
def numbers : Body α → List α
  | .arc s p => [s.rx, s.ry, s.rotation, p.x, p.y]
  | b => b.args

theorem Related.numbers {R : α → α → Prop} (related : Related R b b') :
    List.Forall₂ R b.numbers b'.numbers := by
  cases related with
  | move stop | line stop | smoothQuadratic stop => exact .cons stop.1 (.cons stop.2 .nil)
  | horizontal onX => exact .cons onX .nil
  | vertical onY => exact .cons onY .nil
  | cubic c1 c2 stop =>
    exact .cons c1.1 (.cons c1.2 (.cons c2.1 (.cons c2.2 (.cons stop.1 (.cons stop.2 .nil)))))
  | smoothCubic control stop | quadratic control stop =>
    exact .cons control.1 (.cons control.2 (.cons stop.1 (.cons stop.2 .nil)))
  | arc byX byY turned stop =>
    exact .cons byX (.cons byY (.cons turned (.cons stop.1 (.cons stop.2 .nil))))
  | close => exact .nil

theorem related_self {R : α → α → Prop} {b : Body α} (fixed : ∀ x ∈ b.numbers, R x x) :
    Related R b b := by
  cases b with
  | horizontal x | vertical y =>
    have here := fixed _ List.mem_cons_self
    constructor
    exact here
  | close => exact .close
  | move p | line p | smoothQuadratic p =>
    have point : R p.x p.x ∧ R p.y p.y := by simpa [numbers, args] using fixed
    constructor
    exact point
  | smoothCubic c p | quadratic c p =>
    have points : R c.x c.x ∧ R c.y c.y ∧ R p.x p.x ∧ R p.y p.y := by
      simpa [numbers, args] using fixed
    obtain ⟨cx, cy, stop⟩ := points
    constructor
    · exact ⟨cx, cy⟩
    · exact stop
  | cubic a c p =>
    have points : R a.x a.x ∧ R a.y a.y ∧ R c.x c.x ∧ R c.y c.y ∧ R p.x p.x ∧ R p.y p.y := by
      simpa [numbers, args] using fixed
    obtain ⟨ax, ay, cx, cy, stop⟩ := points
    exact .cubic ⟨ax, ay⟩ ⟨cx, cy⟩ stop
  | arc s p =>
    have all : R s.rx s.rx ∧ R s.ry s.ry ∧ R s.rotation s.rotation ∧ R p.x p.x ∧ R p.y p.y := by
      simpa [numbers] using fixed
    obtain ⟨byX, byY, turned, stop⟩ := all
    exact .arc byX byY turned stop

theorem related_shift [Scalar α] (d : Point α) (b : Body α) :
    b.Related (fun x y => y = x ∨ y = x + d.x ∨ y = x + d.y) (b.shift d) := by
  have moved (p : Point α) :
      p.Related (fun x y => y = x ∨ y = x + d.x ∨ y = x + d.y) (p + d) :=
    ⟨.inr (.inl rfl), .inr (.inr rfl)⟩
  cases b with
  | move p => exact .move (moved p)
  | line p => exact .line (moved p)
  | horizontal x => exact .horizontal (.inr (.inl rfl))
  | vertical y => exact .vertical (.inr (.inr rfl))
  | cubic a c p => exact .cubic (moved a) (moved c) (moved p)
  | smoothCubic c p => exact .smoothCubic (moved c) (moved p)
  | quadratic c p => exact .quadratic (moved c) (moved p)
  | smoothQuadratic p => exact .smoothQuadratic (moved p)
  | arc s p => exact .arc (.inl rfl) (.inl rfl) (.inl rfl) (moved p)
  | close => exact .close

theorem Related.kind_eq {R : α → α → Prop} (related : Related R b b') : b'.kind = b.kind := by
  cases related <;> rfl

@[simp] theorem kind_shift [Scalar α] (d : Point α) (b : Body α) : (b.shift d).kind = b.kind := by
  cases b <;> rfl

end Body

namespace Command

theorem tagAfter_eq (previous : Option (Command α)) (c : Command α) :
    ∃ implicit, tagAfter previous c = { c with implicit } := by
  unfold tagAfter
  split
  · exact ⟨true, rfl⟩
  · exact ⟨false, rfl⟩

@[simp] theorem body_tagAfter (previous : Option (Command α)) (c : Command α) :
    (tagAfter previous c).body = c.body := by
  obtain ⟨implicit, same⟩ := tagAfter_eq previous c
  rw [same]

@[simp] theorem relative_tagAfter (previous : Option (Command α)) (c : Command α) :
    (tagAfter previous c).relative = c.relative := by
  obtain ⟨implicit, same⟩ := tagAfter_eq previous c
  rw [same]

@[simp] theorem kind_tagAfter (previous : Option (Command α)) (c : Command α) :
    (tagAfter previous c).kind = c.kind := by
  simp [kind]

@[simp] theorem isMove_tagAfter (previous : Option (Command α)) (c : Command α) :
    (tagAfter previous c).isMove = c.isMove := by
  simp [isMove]

variable [Scalar α]

@[simp] theorem kind_toRelative (c : Command α) (start : Point α) :
    (c.toRelative start).kind = c.kind := by
  unfold toRelative
  split
  · rfl
  · exact Body.kind_shift _ _

@[simp] theorem kind_toAbsolute (c : Command α) (start : Point α) :
    (c.toAbsolute start).kind = c.kind := by
  unfold toAbsolute
  split
  · rfl
  · exact Body.kind_shift _ _

theorem kind_roundCommand {o : Options α} {c c' : Command α}
    (rounded : o.roundCommand error c = .ok c') : c'.kind = c.kind := by
  obtain ⟨body, mapped, made⟩ := bind_ok.1 rounded
  cases made
  exact (Body.mapNumbers_ok.1 mapped).kind_eq

theorem place_related {f : Filter.Setup α} {body : Body α}
    (placed : f.place body start absolute = .ok c) :
    (if c.relative then body.shift (-start) else body).Related
      (fun x y => f.options.round f.error x = .ok y) c.body := by
  unfold Filter.Setup.place at placed
  dsimp only at placed
  split at placed
  · obtain ⟨rounded, mapped, made⟩ := bind_ok.1 placed
    cases made
    exact Body.mapNumbers_ok.1 mapped
  · unfold toRelative at placed
    split at placed <;> obtain ⟨rounded, mapped, made⟩ := bind_ok.1 placed <;> cases made <;>
      exact Body.mapNumbers_ok.1 mapped

theorem kind_place {f : Filter.Setup α} {body : Body α}
    (placed : f.place body start absolute = .ok c) : c.kind = body.kind := by
  rw [kind_roundCommand placed]
  split
  · rfl
  · exact kind_toRelative _ _

end Command

theorem Segment.isMove_iff {g : Segment α} : g.isMove = true ↔ g.shape = .move := by
  unfold isMove kind
  cases g.shape <;> simp

theorem Segment.curve_not_move {g : Segment α} (curve : g.isCurve = true) : g.shape ≠ .move := by
  intro shape
  simp [isCurve, kind, shape] at curve

theorem Segment.curve_not_line {g : Segment α} (curve : g.isCurve = true) : g.shape ≠ .line := by
  intro shape
  simp [isCurve, kind, shape] at curve

namespace Pen

variable [Scalar α]

def after (pen : Pen α) (cs : List (Command α)) : Pen α :=
  cs.foldl (fun pen c => (pen.draw c).2) pen

theorem after_append (pen : Pen α) (first second : List (Command α)) :
    pen.after (first ++ second) = (pen.after first).after second :=
  List.foldl_append

theorem drawAll_append (pen : Pen α) (first second : List (Command α)) :
    pen.drawAll (first ++ second) = pen.drawAll first ++ (pen.after first).drawAll second := by
  induction first generalizing pen with
  | nil => rfl
  | cons c rest ih => exact congrArg ((pen.draw c).1 :: ·) (ih (pen.draw c).2)

theorem draw_congr {c c' : Command α} (body : c'.body = c.body)
    (relative : c'.relative = c.relative) (pen : Pen α) : pen.draw c' = pen.draw c := by
  have absolute : (c'.toAbsolute pen.position).body = (c.toAbsolute pen.position).body := by
    unfold Command.toAbsolute Command.kind
    rw [body, relative]
    split
    · exact body
    · rfl
  unfold draw Command.endPoint Command.isMove Command.kind
  rw [absolute, body, relative]

@[simp] theorem draw_tagAfter (pen : Pen α) (previous : Option (Command α)) (c : Command α) :
    pen.draw (Command.tagAfter previous c) = pen.draw c :=
  draw_congr (Command.body_tagAfter _ _) (Command.relative_tagAfter _ _) pen

@[simp] theorem draw_explicit (pen : Pen α) (c : Command α) : pen.draw c.explicit = pen.draw c :=
  have body : c.explicit.body = c.body := rfl
  draw_congr body rfl pen

@[simp] theorem draw_asImplicit (pen : Pen α) (c : Command α) :
    pen.draw c.asImplicit = pen.draw c :=
  have body : c.asImplicit.body = c.body := rfl
  draw_congr body rfl pen

theorem draw_isMove (pen : Pen α) (c : Command α) : (pen.draw c).1.isMove = c.isMove := by
  have kind := Command.kind_toAbsolute c pen.position
  unfold Segment.isMove Command.isMove
  rw [← kind]
  unfold draw Segment.kind Command.kind
  cases (c.toAbsolute pen.position).body <;> rfl

theorem drawAll_length (pen : Pen α) (cs : List (Command α)) :
    (pen.drawAll cs).length = cs.length := by
  induction cs generalizing pen with
  | nil => rfl
  | cons c rest ih => exact congrArg (· + 1) (ih (pen.draw c).2)

theorem drawAll_leading (pen : Pen α) (cs : List (Command α)) :
    pen.drawAll (cs.takeWhile Command.isMove) =
      (pen.drawAll cs).takeWhile Segment.isMove := by
  induction cs generalizing pen with
  | nil => rfl
  | cons c rest ih =>
    change _ = List.takeWhile _ ((pen.draw c).1 :: (pen.draw c).2.drawAll rest)
    rw [List.takeWhile_cons, List.takeWhile_cons, draw_isMove]
    cases c.isMove with
    | true => exact congrArg ((pen.draw c).1 :: ·) (ih (pen.draw c).2)
    | false => rfl

theorem draw_close {pen : Pen α} {c : Command α} (shape : (pen.draw c).1.shape = .close) :
    (pen.draw c).1.stop = pen.subpathStart := by
  have kind := Command.kind_toAbsolute c pen.position
  unfold draw at shape ⊢
  unfold Command.endPoint
  unfold Command.kind at kind
  cases absolute : (c.toAbsolute pen.position).body <;> rw [absolute] at kind shape <;>
    try cases shape
  cases body : c.body <;> rw [body] at kind <;> cases kind
  rfl

end Pen

def Segment.handle (g : Segment α) : Handle α :=
  match g.shape with
  | .cubic _ c2 => .cubic c2
  | .quadratic c => .quadratic c
  | _ => {}

def Segment.control? (g : Segment α) : Option (Point α) :=
  match g.shape with
  | .cubic c _ | .quadratic c => some c
  | _ => none

namespace Pen

variable [Scalar α]

theorem draw_handle (pen : Pen α) (c : Command α) :
    (pen.draw c).2.handle = (pen.draw c).1.handle := by
  unfold draw Segment.handle
  cases (c.toAbsolute pen.position).body <;> rfl

end Pen

-- The degree of the curves of a kind; what is not a curve leaves no handle.
def Kind.degree : Kind → Nat
  | .cubic | .smoothCubic => 3
  | .quadratic | .smoothQuadratic => 2
  | _ => 0

namespace Pen

variable [Scalar α] {pen : Pen α} {c : Command α}

theorem handle_of_plain (plain : c.kind.degree = 0) : (pen.draw c).2.handle = {} := by
  rw [← Command.kind_toAbsolute c pen.position] at plain
  unfold draw
  unfold Command.kind at plain
  cases absolute : (c.toAbsolute pen.position).body <;> rw [absolute] at plain <;>
    first | rfl | cases plain

theorem handle_of_cubic (cubic : c.kind.degree = 3) :
    (pen.draw c).2.handle = ⟨Filter.renderedControl c pen.position, 3⟩ := by
  rw [← Command.kind_toAbsolute c pen.position] at cubic
  unfold draw Filter.renderedControl
  unfold Command.kind at cubic
  cases absolute : (c.toAbsolute pen.position).body <;> rw [absolute] at cubic <;>
    first | rfl | cases cubic

theorem handle_of_quadratic (quadratic : c.kind = .quadratic) :
    (pen.draw c).2.handle = ⟨Filter.renderedControl c pen.position, 2⟩ := by
  rw [← Command.kind_toAbsolute c pen.position] at quadratic
  unfold draw Filter.renderedControl
  unfold Command.kind at quadratic
  cases absolute : (c.toAbsolute pen.position).body <;> rw [absolute] at quadratic <;>
    first | rfl | cases quadratic

theorem control_of_smooth (smooth : c.kind = .smoothCubic ∨ c.kind = .smoothQuadratic) :
    (pen.draw c).1.control? = some (pen.handle.implied c.kind.degree pen.position) := by
  rw [← Command.kind_toAbsolute c pen.position] at smooth ⊢
  unfold draw Segment.control?
  unfold Command.kind at smooth ⊢
  cases absolute : (c.toAbsolute pen.position).body <;> rw [absolute] at smooth <;>
    first | rfl | (rcases smooth with smooth | smooth <;> cases smooth)

theorem handle_of_smoothQuadratic (smooth : c.kind = .smoothQuadratic) :
    (pen.draw c).2.handle = .quadratic (pen.handle.implied 2 pen.position) := by
  rw [← Command.kind_toAbsolute c pen.position] at smooth
  unfold draw
  unfold Command.kind at smooth
  cases absolute : (c.toAbsolute pen.position).body <;> rw [absolute] at smooth <;>
    first | rfl | cases smooth

end Pen
end PathData
