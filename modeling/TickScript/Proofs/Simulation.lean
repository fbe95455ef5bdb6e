import TickScript.Proofs.Chains

/-!
# Static scopes follow the scopes of a run

Wherever a run is, the scopes from there outward are as many as the frames of the layout of this
place, and none hides a name that its frame does not show. A function takes the frames of its
declaration along: names that are declared around it later are new, so they hide nothing that
its body looks for further out.
-/

namespace TickScript

variable {ω : Type}

/-- Bodies of functions declare no functions. -/
def Permits.bodies (left : FunctionId → Prop) : Permits :=
  ⟨fun _ => True, fun _ => True, fun _ => False, left⟩

variable {left : FunctionId → Prop}

namespace Permits

theorem node_bodies (e : Expr) : (bodies left).Node e := by
  cases e <;> trivial

end Permits

/-! ## Functions -/

/-- The function of a store was declared where its frames say. -/
structure Store.Good (P : List Frame → List Frame → Expr → Prop) (s : Store) (globals : ScopeId)
    (header : Header) (body : List Stmt) (closure : ScopeId) (cs : List ScopeId)
    (L : Layout) : Prop where
  chain : s.Chain globals closure cs
  clear : s.Clear cs L.frames
  lower : s.Lower cs L.frames
  nodup : header.names.Nodup
  inside : StmtsScoped P (L.body header.names) body

/-- All script functions of a store were, except for those that are left of earlier programs. -/
def Store.Goods (P : List Frame → List Frame → Expr → Prop) (left : FunctionId → Prop) (s : Store)
    (globals : ScopeId) : Prop :=
  ∀ ⦃f : FunctionId⦄ ⦃header : Header⦄ ⦃body : List Stmt⦄ ⦃closure : ScopeId⦄,
    s.functions[f]? = some (.script header body closure) → ¬ left f →
    ∃ cs L, s.Good P globals header body closure cs L

namespace Store

variable {P : List Frame → List Frame → Expr → Prop} {s t : Store} {globals : ScopeId}

/-- A store in which no script function is new. -/
theorem Kept.script {free : Option ScopeId} (h : Kept (.bodies left) free s t) {f : FunctionId}
    {header : Header} {body : List Stmt} {closure : ScopeId}
    (hf : t.functions[f]? = some (.script header body closure)) :
    s.functions[f]? = some (.script header body closure) := by
  obtain ⟨added, e, hno⟩ := h.functions
  rw [e, Array.getElem?_append] at hf
  split at hf
  · exact hf
  · exact (hno header body closure (Array.mem_of_getElem? hf)).elim

/-- A function stays where it was declared. -/
theorem Good.kept {may : Permits} {header : Header} {body : List Stmt} {closure : ScopeId}
    {cs : List ScopeId} {L : Layout} (h : s.Good P globals header body closure cs L)
    (k : Kept may none s t) : t.Good P globals header body closure cs L := by
  have hlt := chain_lt h.chain
  refine ⟨chain_congr h.chain fun c hm => k.parent c (hlt c hm), ?_, ?_, h.nodup, h.inside⟩
  · exact clear_congr h.clear fun c hm n => k.names c (hlt c hm) (by simp) n
  · exact lower_mono h.lower fun c _ n => k.still c n

theorem Goods.kept (h : s.Goods P left globals) (k : Kept (.bodies left) none s t) :
    t.Goods P left globals := by
  intro f header body closure hf hl
  obtain ⟨cs, L, good⟩ := h (k.script hf) hl
  exact ⟨cs, L, good.kept k⟩

end Store

/-! ## Places -/

/-- A run is at a place: in `scope`, whose chain has the scopes `own` of the function around the
place and then those of its closure. `first` says that no program has run before. -/
structure Site (P : List Frame → List Frame → Expr → Prop) (left : FunctionId → Prop) (first : Prop)
    (globals : ScopeId) (s : Store) (L : Layout) (scope : ScopeId) (own closed : List ScopeId) :
    Prop where
  chain : s.Chain globals scope (own ++ closed)
  upper : s.Upper own L.own
  lower : s.Lower (own ++ closed) L.frames
  clear : s.Clear closed L.outer
  outside : L.inFunction = false → closed = []
  inside : L.inFunction = true → own ≠ []
  apart : L.inFunction = true → ∀ ⦃f : FunctionId⦄ ⦃header : Header⦄ ⦃body : List Stmt⦄
      ⦃closure : ScopeId⦄ ⦃cs : List ScopeId⦄,
    s.functions[f]? = some (.script header body closure) → ¬ left f →
    s.Chain globals closure cs → ∀ c ∈ own, c ∉ cs
  top : L.own = [] → first → ∀ n, s.binds globals n = true → L.top n = true
  there : globals < s.scopes.size
  goods : s.Goods P left globals

namespace Site

variable {P : List Frame → List Frame → Expr → Prop} {first : Prop} {globals : ScopeId} {s t : Store}
  {L : Layout} {scope : ScopeId} {own closed : List ScopeId}

theorem clear_frames (site : Site P left first globals s L scope own closed) :
    s.Clear (own ++ closed) L.frames :=
  Store.clear_append site.upper site.clear

/-- A name that is being declared here hides nothing yet. -/
theorem clear_added (site : Site P left first globals s L scope own closed) (name : String) :
    s.Clear (own ++ closed) (L.add name).frames := by
  cases own with
  | nil =>
    have hown : L.own = [] := List.forall₂_nil_left_iff.1 site.upper
    have hadd : (L.add name).frames = L.frames := by simp only [Layout.add, hown, Layout.frames]
    rw [hadd]
    exact site.clear_frames
  | cons c cs =>
    obtain ⟨f, fs, hf, hfs, hown⟩ := List.forall₂_cons_left_iff.1 site.upper
    have hadd : (L.add name).frames = f.add name :: fs ++ L.outer := by
      simp only [Layout.add, hown, Layout.frames]
    rw [hadd]
    exact Store.clear_append (.cons (fun n hb => Frame.add_iff.2 (.inr (hf n hb))) hfs) site.clear

/-- A name that is declared again in the outermost scope. -/
theorem add_outermost {name : String} (site : Site P left first globals s L scope [] closed) :
    Site P left first globals s (L.add name) scope [] closed := by
  have hown : L.own = [] := List.forall₂_nil_left_iff.1 site.upper
  have hadd : L.add name = { L with top := L.top.add name } := by simp only [Layout.add, hown]
  rw [hadd]
  exact { site with top := fun h hfirst n hb => Frame.add_iff.2 (.inr (site.top h hfirst n hb)) }

/-- What happens elsewhere leaves a place as it is. -/
theorem kept {may : Permits} (site : Site P left first globals s L scope own closed)
    (k : Store.Kept may none s t) (goods : t.Goods P left globals)
    (same : L.inFunction = true → ∀ ⦃f : FunctionId⦄ ⦃header : Header⦄ ⦃body : List Stmt⦄
        ⦃closure : ScopeId⦄,
      t.functions[f]? = some (.script header body closure) →
      s.functions[f]? = some (.script header body closure)) :
    Site P left first globals t L scope own closed := by
  have hlt := Store.chain_lt site.chain
  have hown : ∀ c ∈ own, ∀ n, t.binds c n = s.binds c n := fun c hm n =>
    k.names c (hlt c (List.mem_append_left _ hm)) (by simp) n
  refine ⟨?_, ?_, ?_, ?_, site.outside, site.inside, ?_, ?_, ?_, goods⟩
  · exact Store.chain_congr site.chain fun c hm => k.parent c (hlt c hm)
  · exact Store.upper_congr site.upper hown
  · exact Store.lower_mono site.lower fun c _ n => k.still c n
  · exact Store.clear_congr site.clear fun c hm n =>
      k.names c (hlt c (List.mem_append_right _ hm)) (by simp) n
  · intro hin f header body closure cs hf hl hc
    obtain ⟨cs', L', good⟩ := site.goods (same hin hf) hl
    rw [Store.chain_unique hc (good.kept k).chain]
    exact site.apart hin (same hin hf) hl good.chain
  · intro hempty hfirst n hb
    refine site.top hempty hfirst n ?_
    rw [← k.names globals site.there (by simp) n]
    exact hb
  · exact Nat.lt_of_lt_of_le site.there k.size

/-- Expressions leave a place as it is. -/
theorem quiet (site : Site P left first globals s L scope own closed)
    (k : Store.Kept (.bodies left) none s t) : Site P left first globals t L scope own closed :=
  site.kept k (site.goods.kept k) fun _ _ _ _ _ hf => k.script hf

/-- Binding a name where no script function can see it, or where it hides nothing, leaves the
functions as they are. -/
theorem goods_bind {name : String} {v : Value} (goods : s.Goods P left globals)
    (hs : scope < s.scopes.size)
    (hnew : ∀ ⦃f : FunctionId⦄ ⦃header : Header⦄ ⦃body : List Stmt⦄ ⦃closure : ScopeId⦄
      ⦃cs : List ScopeId⦄, s.functions[f]? = some (.script header body closure) → ¬ left f →
      s.Chain globals closure cs → scope ∈ cs →
      ∀ after, s.Chain globals scope (scope :: after) → ∀ c ∈ after, s.binds c name = false) :
    (s.bind scope name v).Goods P left globals := by
  intro f header body closure hf hl
  obtain ⟨cs, L, good⟩ := goods hf hl
  refine ⟨cs, L, ?_, ?_, ?_, good.nodup, good.inside⟩
  · exact Store.chain_congr good.chain fun c _ => Store.parent?_bind s scope c name v
  · exact Store.clear_bind hs good.chain good.clear good.lower (hnew hf hl good.chain)
  · exact Store.lower_mono good.lower fun c _ n hb => (Store.binds_bind hs).2 (.inr hb)

/-- Behind the declaration of a new name in the outermost scope. -/
theorem bind_outermost {name : String} {v : Value}
    (site : Site P left first globals s L scope [] closed) :
    Site P left first globals (s.bind scope name v) (L.add name) scope [] closed := by
  have hout : L.inFunction = false := by
    rw [Bool.eq_false_iff]
    exact fun hin => site.inside hin rfl
  have hown : L.own = [] := List.forall₂_nil_left_iff.1 site.upper
  obtain rfl : closed = [] := site.outside hout
  obtain rfl : scope = globals := site.chain
  have hadd : L.add name = { L with top := L.top.add name } := by simp only [Layout.add, hown]
  rw [hadd]
  refine ⟨rfl, by rw [hown]; exact .nil, Store.lower_mono site.lower (by simp),
    Store.clear_congr site.clear (by simp),
    site.outside, site.inside, fun hin => absurd hin (by simp [hout]), ?_, ?_, ?_⟩
  · intro _ hfirst n hb
    rcases (Store.binds_bind site.there).1 hb with ⟨-, rfl⟩ | hb
    · exact Frame.add_self _ _
    · exact Frame.add_iff.2 (.inr (site.top hown hfirst n hb))
  · rw [Store.size_bind]
    exact site.there
  · exact goods_bind site.goods site.there fun _ _ _ _ _ _ _ hc hm =>
      absurd hm (Store.chain_globals_not_mem hc)

/-- Behind the declaration of a new name in any other scope. -/
theorem bind_inner {name : String} {v : Value} {c : ScopeId} {cs : List ScopeId}
    (site : Site P left first globals s L scope (c :: cs) closed)
    (hfresh : L.declares name = false) :
    Site P left first globals (s.bind scope name v) (L.add name) scope (c :: cs) closed := by
  obtain ⟨f, fs, hf, hfs, hown⟩ := List.forall₂_cons_left_iff.1 site.upper
  obtain rfl : scope = c := site.chain.1
  have hnodup := Store.chain_nodup site.chain
  have hlt : scope < s.scopes.size := Store.chain_lt site.chain scope List.mem_cons_self
  have other : ∀ c', c' ≠ scope → ∀ n, (s.bind scope name v).binds c' n = s.binds c' n := by
    intro c' hc' n
    rw [Store.binds, Store.lookup_bind_of_ne (.inl hc'), ← Store.binds]
  have tail_ne : ∀ c' ∈ cs ++ closed, c' ≠ scope := by
    intro c' hm e
    exact (List.nodup_cons.1 hnodup).1 (e ▸ hm)
  have hadd : L.add name = { L with own := f.add name :: fs } := by simp only [Layout.add, hown]
  rw [hadd]
  refine ⟨?_, ?_, ?_, ?_, site.outside, site.inside, ?_, fun h => by simp at h, ?_, ?_⟩
  · exact Store.chain_congr site.chain fun c' _ => Store.parent?_bind s scope c' name v
  · refine .cons (fun n hb => ?_) (Store.upper_congr hfs fun c' hm n =>
      other c' (tail_ne c' (List.mem_append_left _ hm)) n)
    rcases (Store.binds_bind hlt).1 hb with ⟨-, rfl⟩ | hb
    · exact Frame.add_self _ _
    · exact Frame.add_iff.2 (.inr (hf n hb))
  · have hlow := site.lower
    rw [Layout.frames, hown] at hlow
    obtain ⟨hlf, hlfs⟩ := List.forall₂_cons.1 hlow
    refine .cons (fun n hn => ?_) (Store.lower_mono hlfs fun c' _ n hb =>
      (Store.binds_bind hlt).2 (.inr hb))
    rcases Frame.add_iff.1 hn with rfl | hn
    · exact (Store.binds_bind hlt).2 (.inl ⟨rfl, rfl⟩)
    · exact (Store.binds_bind hlt).2 (.inr (hlf n hn))
  · exact Store.clear_congr site.clear fun c' hm n =>
      other c' (tail_ne c' (List.mem_append_right _ hm)) n
  · intro hin f' header body closure cs' hf' hl' hc'
    refine site.apart hin hf' hl' (Store.chain_congr hc' fun c' _ => ?_)
    exact (Store.parent?_bind s scope c' name v).symm
  · rw [Store.size_bind]
    exact site.there
  · refine goods_bind site.goods hlt ?_
    intro f' header body closure cs' hf' hl' hc' hm after hafter c' hc''
    cases hin : L.inFunction with
    | true => exact absurd hm (site.apart hin hf' hl' hc' scope List.mem_cons_self)
    | false =>
      -- The scopes further out are those of this place, and none has the name.
      have hchain := site.chain
      rw [site.outside hin, List.append_nil] at hchain
      have hcs := (List.cons.inj (Store.chain_unique hafter hchain)).2
      rw [Bool.eq_false_iff]
      intro hb
      obtain ⟨g, hg, hn⟩ := Store.Upper.frame hfs ⟨c', hcs ▸ hc'', hb⟩
      have : L.declares name = true := by
        simp only [Layout.declares, hown, List.any_cons, Bool.or_eq_true, List.any_eq_true]
        exact .inr ⟨g, hg, hn⟩
      rw [this] at hfresh
      exact Bool.noConfusion hfresh

/-- Behind the declaration of a new name. -/
theorem bind {name : String} {v : Value} (site : Site P left first globals s L scope own closed)
    (hfresh : L.declares name = false) :
    Site P left first globals (s.bind scope name v) (L.add name) scope own closed := by
  cases own with
  | nil => exact site.bind_outermost
  | cons c cs => exact site.bind_inner hfresh

/-- A new name is not bound yet, unless a program has run before. -/
theorem unbound {name : String} (site : Site P left first globals s L scope own closed)
    (hfresh : L.declares name = false) (h : L.own = [] → first) : s.binds scope name = false := by
  rw [Bool.eq_false_iff]
  intro hb
  have hdeclared : L.declares name = true := by
    cases own with
    | nil =>
      have hown : L.own = [] := List.forall₂_nil_left_iff.1 site.upper
      have hout : L.inFunction = false := by
        rw [Bool.eq_false_iff]
        exact fun hin => site.inside hin rfl
      obtain rfl : closed = [] := site.outside hout
      obtain rfl : scope = globals := site.chain
      simp only [Layout.declares, hown]
      exact site.top hown (h hown) name hb
    | cons c cs =>
      obtain ⟨f, fs, hf, -, hown⟩ := List.forall₂_cons_left_iff.1 site.upper
      obtain rfl : scope = c := site.chain.1
      simp only [Layout.declares, hown, List.any_cons, hf name hb, Bool.true_or]
  rw [hdeclared] at hfresh
  exact Bool.noConfusion hfresh

/-- A function that is made at a place outside of functions belongs there. -/
theorem newFunction {header : Header} {body : List Stmt}
    (site : Site P left first globals s L scope own closed) (hout : L.inFunction = false)
    (hnodup : header.names.Nodup) (hbody : StmtsScoped P (L.body header.names) body) :
    Site P left first globals (s.newFunction (.script header body scope)).2 L scope own closed := by
  have kept : Store.Kept .everything none s (s.newFunction (.script header body scope)).2 :=
    Store.Kept.of_newFunction trivial
  refine site.kept kept ?_ fun hin => absurd hin (by simp [hout])
  intro f header' body' closure hf hl
  simp only [Store.newFunction, Array.getElem?_push] at hf
  split at hf
  · cases hf
    have hclosed := site.outside hout
    subst hclosed
    have hchain := site.chain
    rw [List.append_nil] at hchain
    have houter : L.outer = [] := List.length_eq_zero_iff.1 (Store.clear_length site.clear).symm
    have hframes : L.frames = L.own := by rw [Layout.frames, houter, List.append_nil]
    have hlower := site.lower
    rw [List.append_nil] at hlower
    have good : s.Good P globals header body scope own L :=
      ⟨hchain, hframes ▸ Store.clear_of_upper site.upper, hlower, hnodup, hbody⟩
    exact ⟨own, L, good.kept kept⟩
  · obtain ⟨cs, L', good⟩ := site.goods hf hl
    exact ⟨cs, L', good.kept kept⟩

/-- A new scope is in no chain that was there. -/
theorem new_not_mem {p : Option ScopeId} (goods : s.Goods P left globals) {f : FunctionId}
    {header : Header} {body : List Stmt} {closure : ScopeId} {cs : List ScopeId}
    (hf : s.functions[f]? = some (.script header body closure)) (hl : ¬ left f)
    (hc : (s.newScope p).2.Chain globals closure cs) : s.scopes.size ∉ cs := by
  obtain ⟨cs', L', good⟩ := goods hf hl
  have kept : Store.Kept (.bodies left) none s (s.newScope p).2 :=
    Store.Kept.leave (Store.Kept.refl _ _ _)
  rw [Store.chain_unique hc (good.kept kept).chain]
  intro hm
  exact Nat.lt_irrefl _ (Store.chain_lt good.chain _ hm)

theorem binds_newScope_self {p : Option ScopeId} (n : String) :
    (s.newScope p).2.binds s.scopes.size n = false := by
  rw [Store.binds_false_iff, Store.lookup_newScope]
  by_contra h
  obtain ⟨v, hv⟩ := Option.ne_none_iff_exists'.1 h
  exact Nat.lt_irrefl _ (Store.lt_of_lookup hv)

/-- Into a block. -/
theorem enter (site : Site P left first globals s L scope own closed) :
    Site P left first globals (s.newScope (some scope)).2 L.block s.scopes.size
      (s.scopes.size :: own) closed := by
  have kept : Store.Kept (.bodies left) none s (s.newScope (some scope)).2 :=
    Store.Kept.leave (Store.Kept.refl _ _ _)
  have after := site.quiet kept
  refine ⟨?_, ?_, ?_, after.clear, site.outside, fun _ => by simp, ?_, fun h => ?_, after.there,
    after.goods⟩
  · exact ⟨rfl, site.there, scope, Store.parent?_newScope_self s _, after.chain⟩
  · exact .cons (fun n hb => by rw [binds_newScope_self] at hb; exact Bool.noConfusion hb) after.upper
  · exact .cons (fun n hn => Bool.noConfusion hn) after.lower
  · intro hin f header body closure cs hf hl hc c hm
    rcases List.mem_cons.1 hm with rfl | hm
    · exact new_not_mem site.goods hf hl hc
    · exact after.apart hin hf hl hc c hm
  · simp [Layout.block] at h

/-- Into the body of a function. -/
theorem enterBody {header : Header} {body : List Stmt} {closure : ScopeId} {cs : List ScopeId}
    (goods : s.Goods P left globals) (there : globals < s.scopes.size)
    (good : s.Good P globals header body closure cs L) :
    Site P left first globals (s.newScope (some closure)).2 (L.body []) s.scopes.size
      [s.scopes.size] cs := by
  have kept : Store.Kept (.bodies left) none s (s.newScope (some closure)).2 :=
    Store.Kept.leave (Store.Kept.refl _ _ _)
  have after := good.kept kept
  refine ⟨?_, ?_, ?_, after.clear, fun h => ?_, fun _ => by simp, ?_, fun h => ?_, ?_,
    goods.kept kept⟩
  · exact ⟨rfl, there, closure, Store.parent?_newScope_self s _, after.chain⟩
  · exact .cons (fun n hb => by rw [binds_newScope_self] at hb; exact Bool.noConfusion hb) .nil
  · exact .cons (fun n hn => Bool.noConfusion hn) after.lower
  · simp [Layout.body] at h
  · intro _ f header' body' closure' cs' hf hl hc c hm
    rw [List.mem_singleton.1 hm]
    exact new_not_mem goods hf hl hc
  · simp [Layout.body] at h
  · exact Nat.lt_of_lt_of_le there kept.size

end Site

end TickScript
