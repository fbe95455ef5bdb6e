import Mathlib.Data.List.Forall2
import TickScript.Proofs.Typing.Steps

/-!
# Typed functions

The arguments of a call are fitted to the parameters without a change to the store, the
parameters are bound to values of their types, and the result is of the return type. What the
host has to grant for this is little: its functions leave arrays alone and return no arrays.
-/

namespace TickScript

open Walk

variable {ω : Type}

/-! ## Host functions -/

/-- A host function leaves scopes and arrays as they are, and returns no arrays. -/
structure HostFunction.Quiet (f : HostFunction ω) : Prop extends f.Outside where
  arrays : ∀ values s w a, a < s.arrays.size →
    (f.respond values s w).store.arrays[a]? = s.arrays[a]?
  result : f.signature.returnType = .void ∨ ∃ k, f.signature.returnType = .scalar k

/-- Unless it returns nothing, a host function always returns a value that fits. -/
def HostFunction.Replies (f : HostFunction ω) : Prop :=
  f.signature.returnType ≠ .void → ∀ values s w,
    ∃ v u, (f.respond values s w).value = some v ∧ v.convert f.signature.returnType = .ok u

/-- The host provides the functions that a program is typed with. -/
def Types.Served (T : Types) (host : Host ω) : Prop :=
  ∀ name signature, T.provides name signature → ∃ f, host.function? name = some f ∧
    f.signature = signature ∧ f.Quiet ∧ (T.exact → f.Replies)

theorem HostFunction.Quiet.extends {f : HostFunction ω} (h : f.Quiet) (values : List Value)
    (s : Store) (w : ω) : s.Extends (f.respond values s w).store :=
  ⟨h.scopes values s w, h.functions values s w, h.arrays values s w⟩

/-! ## Arguments -/

variable {T : Types} {setting : Setting ω} {scope : ScopeId} {run : Run ω}

/-- The value may be passed to a parameter of this type. -/
def Types.Accepts (T : Types) (s : Store) (parameter : Ty) (v : Value) : Prop :=
  ∃ type, type.isWild = false ∧ parameter.compatible type = true ∧ s.Fits T.exact v type

/-- The value has the shape of the type, if the type says anything. -/
def Store.Suits (s : Store) (type : Ty) (v : Value) : Prop :=
  type.isWild = false → s.HasShape v type

theorem Types.Accepts.coerce {s : Store} {parameter : Ty} {v : Value} (h : T.Accepts s parameter v) :
    match Store.coerce parameter v s with
    | .ok w t => t = s ∧ s.Suits parameter w
    | .error _ t => t = s ∧ ¬ T.exact := by
  obtain ⟨type, ht, hc, hv⟩ := h
  by_cases hp : parameter.isWild = false
  · have fitted := hv.coerce hp ht hc
    cases hr : Store.coerce parameter v s with
    | ok w t =>
      rw [hr] at fitted
      exact ⟨fitted.1, fun _ => fitted.2⟩
    | error m t =>
      rw [hr] at fitted
      exact fitted
  · cases parameter with
    | any => exact ⟨rfl, fun e => absurd e hp⟩
    | unknown => exact ⟨rfl, fun e => absurd e hp⟩
    | _ => exact absurd rfl hp

theorem ends_arguments (function : String) (line : Nat) : ∀ (position : Nat) {types : List Ty}
    {values : List Value}, List.Forall₂ (T.Accepts run.store) types values →
    (Eval.arguments function line position types values : Eval ω _).Ends run
      (fun ws r => r.store = run.store ∧ List.Forall₂ run.store.Suits types ws)
      (fun i r => r.store = run.store ∧ (T.exact → i.Ordinary)) := by
  intro position types values h
  induction h generalizing position with
  | nil => exact (Eval.ends_pure _).2 ⟨rfl, .nil⟩
  | @cons parameter v types values hv _ ih =>
    rw [Eval.arguments]
    refine Eval.ends_bind.2 ((Eval.ends_fitTo _ _ _ _).2 ?_)
    have fitted := hv.coerce
    cases hr : Store.coerce parameter v run.store with
    | error m s =>
      rw [hr] at fitted
      exact ⟨fitted.1, fun he => absurd he fitted.2⟩
    | ok w s =>
      rw [hr] at fitted
      obtain ⟨rfl, hw⟩ := fitted
      refine Eval.ends_bind.2 ((ih (position + 1)).mono ?_ fun _ _ hi => hi)
      rintro ws r ⟨hr, hws⟩
      exact (Eval.ends_pure _).2 ⟨hr, .cons hw hws⟩

theorem runs_arguments (hs : run.store.Sound T setting.globals) (function : String) (line : Nat)
    {types : List Ty} {values : List Value} (h : List.Forall₂ (T.Accepts run.store) types values) :
    T.Runs setting (Eval.arguments function line 1 types values) quiet run
      (fun ws s => List.Forall₂ s.Suits types ws) :=
  runs_same hs (ends_arguments function line 1 h)

/-! ## Parameters -/

theorem runs_parameters : ∀ {ps : List Parameter} {ws : List Value} {run : Run ω},
    T.At setting scope run.store → (∀ p ∈ ps, T.Declares p.name p.type) →
    List.Forall₂ run.store.Suits (ps.map Parameter.type) ws →
    T.Runs setting (Eval.parameters scope ps ws) (Walk.parameters scope ps ws) run
      (fun _ _ => True)
  | [], _, _, place, _, _ => runs_pure place.sound trivial
  | p :: ps, w :: ws, run, place, hd, hws => by
    obtain ⟨hw, hws⟩ := List.forall₂_cons.1 hws
    have hp := hd p List.mem_cons_self
    rw [Eval.parameters, Walk.parameters]
    refine runs_after (runs_define place hp (hw (Ty.not_wild_of_isData hp.data))) ?_
    intro _ r hl hs hbound
    have place' := place.later hs hl
    refine follows_bound_both (good_binds place' hp hbound) (runs_parameters place' ?_ ?_)
    · exact fun q hq => hd q (List.mem_cons_of_mem p hq)
    · exact hws.imp fun _ _ hv hwild => (hv hwild).later hl

/-! ## Results -/

/-- What the body of a function of this return type gives back. -/
structure Types.Returns (T : Types) (s : Store) (type : Ty) (v : Value) : Prop where
  array : ∀ a element, v = .array a → type = .array element → s.HasShape v type
  fits : T.exact → type ≠ .void → v ≠ .nil ∧ ∃ w, v.convert type = .ok w

theorem Store.Fits.returns {s : Store} {type : Ty} {v : Value} (h : s.Fits T.exact v type) :
    T.Returns s type v where
  array a _ hv _ := h.array a hv
  fits he hvoid := by
    have hs := h.shape he
    cases type with
    | scalar k =>
      refine ⟨?_, v, convert_holds hs⟩
      rintro rfl
      cases k <;> cases hs
    | array element =>
      obtain ⟨a, rfl, -⟩ := hs
      exact ⟨by simp, .array a, rfl⟩
    | void => exact absurd rfl hvoid
    | any => exact hs.elim
    | unknown => exact hs.elim

theorem runs_result (hs : run.store.Sound T setting.globals) (k : Callable) (line : Nat) {v : Value}
    (hwild : k.signature.returnType.isWild = false)
    (hv : T.Returns run.store k.signature.returnType v) :
    T.Runs setting (Eval.result k line v) quiet run
      (fun w s => s.Fits T.exact w k.signature.returnType) := by
  unfold Eval.result
  generalize k.signature.returnType = type at hwild hv
  split
  · exact runs_pure hs (Store.HasShape.fits rfl)
  · next hvoid =>
    refine runs_pure hs (.of_not_array (by simp) fun he => ?_)
    exact absurd rfl (hv.fits he fun e => hvoid e).1
  · next hvoid hnil =>
    refine runs_same hs ((Eval.ends_fitTo _ _ _ _).2 ?_)
    have converts := fun he => (hv.fits he fun e => hvoid e).2
    rcases Store.array_or_plain type v with ⟨element, a, rfl, rfl⟩ | hplain
    · have hshape := hv.array a element rfl rfl
      rw [Store.coerce_shape hshape]
      exact ⟨rfl, hshape.fits⟩
    · rw [Store.coerce_plain _ hplain]
      cases hc : v.convert type with
      | ok w =>
        exact ⟨rfl, (Store.shape_convert hwild hplain hc).fits⟩
      | error m =>
        refine ⟨rfl, fun he => ?_⟩
        obtain ⟨w, hw⟩ := converts he
        rw [hc] at hw
        cases hw

/-- A built-in function gives a value of its return type. -/
theorem runs_builtin (hs : run.store.Sound T setting.globals) (values : List Value) (b : Builtin) :
    T.Runs setting (Eval.builtin setting values b) quiet run
      (fun v s => s.HasShape v b.signature.returnType) := by
  unfold Eval.builtin
  cases b with
  | deltatime => exact runs_pure hs rfl
  | print =>
    refine runs_same hs (Eval.ends_bind.2 ((Eval.ends_ask _).2 (Eval.ends_bind.2 ?_)))
    exact (Eval.ends_printLine _).2 ((Eval.ends_pure _).2 ⟨rfl, rfl⟩)
  | sizeOf =>
    dsimp only
    split
    · exact runs_same hs ((Eval.ends_ask _).2 ⟨rfl, rfl⟩)
    · exact runs_pure hs rfl

/-- A function of the host gives no array, and what fits its return type if types are exact. -/
theorem runs_hostFunction (served : T.Served setting.host) (hs : run.store.Sound T setting.globals)
    {name : String} {signature : Signature} (hp : T.provides name signature)
    (values : List Value) :
    T.Runs setting (Eval.hostFunction setting name values) quiet run
      (fun v s => signature.returnType.isWild = false ∧ T.Returns s signature.returnType v) := by
  obtain ⟨f, hf, rfl, quiet', replies⟩ := served name signature hp
  unfold Eval.hostFunction
  rw [hf]
  refine runs_extends hs ⟨quiet'.extends values run.store run.world, ?_, ?_⟩
  · rcases quiet'.result with e | ⟨k, e⟩ <;> rw [e] <;> rfl
  · refine ⟨fun a element _ e => ?_, fun he hvoid => ?_⟩
    · rcases quiet'.result with e' | ⟨k, e'⟩ <;> rw [e'] at e <;> cases e
    · obtain ⟨v, u, hv, hu⟩ := replies he hvoid values run.store run.world
      rw [hv, Option.getD_some]
      refine ⟨?_, u, hu⟩
      rintro rfl
      rcases quiet'.result with e | ⟨k, e⟩
      · exact hvoid e
      · rw [e] at hu
        cases k <;> cases hu

end TickScript
