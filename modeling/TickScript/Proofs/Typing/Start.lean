import TickScript.Proofs.Registration
import TickScript.Proofs.Typing.Programs

/-!
# The types of an accepted program

Scanning gives every name one type, and collecting gives every function one signature. If no two
functions share a name then these types describe the program, the program is typed by them, and
so is the store with which it starts: built-in functions, the functions of the host, and copies of
its variables.
-/

namespace TickScript

variable {ω : Type}

/-! ## Tables of lists -/

namespace Table

variable {κ α : Type} [DecidableEq κ]

theorem ofList_append (entries : List (κ × α)) (key : κ) (value : α) :
    ofList (entries ++ [(key, value)]) = (ofList entries).insert key value := by
  simp [ofList]

theorem mem_of_find?_ofList {entries : List (κ × α)} {key : κ} {value : α}
    (h : (ofList entries).find? key = some value) : (key, value) ∈ entries := by
  induction entries using List.reverseRecOn with
  | nil => cases h
  | append_singleton entries entry ih =>
    rw [ofList_append, find?_insert] at h
    rw [List.mem_append, List.mem_singleton]
    split at h
    · next hk =>
      cases h
      exact .inr (by rw [hk])
    · exact .inl (ih h)

theorem contains_of_mem_ofList {entries : List (κ × α)} {key : κ} {value : α}
    (h : (key, value) ∈ entries) : (ofList entries).contains key = true := by
  induction entries using List.reverseRecOn with
  | nil => cases h
  | append_singleton entries entry ih =>
    rw [ofList_append, contains_insert, Bool.or_eq_true, decide_eq_true_eq]
    rcases List.mem_append.1 h with h | h
    · exact .inr (ih h)
    · exact .inl (congrArg Prod.fst (List.mem_singleton.1 h))

/-- A key that stands in a list with one value only has it. -/
theorem find?_ofList_of_unique {entries : List (κ × α)} {key : κ} {value : α}
    (h : (key, value) ∈ entries) (unique : ∀ v, (key, v) ∈ entries → v = value) :
    (ofList entries).find? key = some value := by
  have found := contains_of_mem_ofList h
  rw [contains, Option.isSome_iff_exists] at found
  obtain ⟨v, hv⟩ := found
  rw [hv, unique v (mem_of_find?_ofList hv)]

theorem find?_ofList {entries : List (κ × α)} (hn : (entries.map Prod.fst).Nodup) {key : κ}
    {value : α} (h : (key, value) ∈ entries) : (ofList entries).find? key = some value :=
  find?_ofList_of_unique h fun _ hv => congrArg Prod.snd (List.inj_on_of_nodup_map hn hv h rfl)

end Table

/-! ## Declared functions -/

mutual

/-- The functions that a statement declares are those of its parts. -/
theorem mem_declared {n : String} {signature : Signature} : (s : Stmt) →
    ((n, signature) ∈ s.declared ↔ ∃ part ∈ s.parts, ∃ header ∈ part.header?,
      header.name.lexeme = n ∧ header.signature = signature)
  | .expression _ => by simp [Stmt.declared, Stmt.header?]
  | .block body => by simp [Stmt.declared, Stmt.header?, mem_declaredIn body]
  | .declare _ _ _ => by simp [Stmt.declared, Stmt.header?]
  | .ifThen _ _ yes => by simp [Stmt.declared, Stmt.header?, mem_declared yes]
  | .ifElse _ _ yes no => by
    simp [Stmt.declared, Stmt.header?, mem_declared yes, mem_declared no, or_and_right, exists_or]
  | .while _ _ body => by simp [Stmt.declared, Stmt.header?, mem_declared body]
  | .return _ _ => by simp [Stmt.declared, Stmt.header?]
  | .break _ => by simp [Stmt.declared, Stmt.header?]
  | .continue _ => by simp [Stmt.declared, Stmt.header?]
  | .function header body => by
    simp [Stmt.declared, Stmt.header?, mem_declaredIn body, eq_comm]

theorem mem_declaredIn {n : String} {signature : Signature} : (ss : List Stmt) →
    ((n, signature) ∈ declaredIn ss ↔ ∃ part ∈ stmtsParts ss, ∃ header ∈ part.header?,
      header.name.lexeme = n ∧ header.signature = signature)
  | [] => by simp [declaredIn]
  | s :: ss => by
    simp [declaredIn, mem_declared s, mem_declaredIn ss, or_and_right, exists_or]

end

/-! ## The types of a program -/

/-- The names of the functions of a program and its host, each as often as it is declared. -/
def functionNames (host : Host ω) (statements : List Stmt) : List String :=
  Builtin.all.map Builtin.name ++ host.functions.map HostFunction.name ++
    (declaredIn statements).map Prod.fst

/-- The types of a program. -/
def typesOf (source : String) (host : Host ω) (statements : List Stmt) (exact : Prop) : Types where
  name n := ((scan source host.seedTypes).types.find? n).getD .unknown
  signatures := Signatures.collect statements host
  functions n := n ∈ functionNames host statements
  provides name signature := (host.function? name).map HostFunction.signature = some signature
  exact := exact

/-- The entries from which signatures are collected. -/
def signatureEntries (host : Host ω) (statements : List Stmt) : List (String × Signature) :=
  Builtin.all.map (fun b => (b.name, b.signature)) ++
    host.functions.map (fun f => (f.name, f.signature)) ++ declaredIn statements

theorem signatureEntries_fst (host : Host ω) (statements : List Stmt) :
    (signatureEntries host statements).map Prod.fst = functionNames host statements := by
  simp [signatureEntries, functionNames, Function.comp_def]

section Start

variable {source : String} {host : Host ω} {c : Compilation} {exact : Prop} {s : Store}

/-- The built-in functions come before the names of the host. -/
theorem seedTypes_find? (host : Host ω) (n : String) :
    host.seedTypes.find? n =
      if n = Builtin.sizeOf.name then some .int
      else if n = Builtin.print.name then some .void
      else if n = Builtin.deltatime.name then some .float
      else host.nameTypes.find? n := by
  simp [Host.seedTypes, Builtin.all, Table.find?_insert, Builtin.signature]

/-- The types of names that are known beforehand say something. -/
theorem seedTypes_plain (quiet : ∀ f ∈ host.functions, f.Quiet) (init : host.Initialized s)
    {n : String} {type : Ty} (h : host.seedTypes.find? n = some type) : type.isWild = false := by
  rw [seedTypes_find?] at h
  split at h
  · cases h
    rfl
  split at h
  · cases h
    rfl
  split at h
  · cases h
    rfl
  rcases List.mem_append.1 (Table.mem_of_find?_ofList h) with h | h
  · obtain ⟨v, hv, e⟩ := List.mem_map.1 h
    cases e
    exact (init.data v hv).1
  · obtain ⟨f, hf, e⟩ := List.mem_map.1 h
    cases e
    rcases (quiet f hf).result with e | ⟨k, e⟩ <;> rw [e] <;> rfl

/-- The names of a host have their types, but for those of built-in functions. -/
theorem seedTypes_host {n : String} (apart : ∀ b : Builtin, b.name ≠ n) :
    host.seedTypes.find? n = host.nameTypes.find? n := by
  rw [seedTypes_find?, if_neg (apart _).symm, if_neg (apart _).symm, if_neg (apart _).symm]

theorem nameTypes_fst (host : Host ω) :
    (host.externals.map (fun v => (v.name, v.type)) ++
      host.functions.map (fun f => (f.name, f.signature.returnType))).map Prod.fst =
      host.names := by
  rw [List.map_append, List.map_map, List.map_map]
  rfl

theorem nameTypes_variable (distinct : host.names.Nodup) {v : HostVariable}
    (hv : v ∈ host.externals) : host.nameTypes.find? v.name = some v.type :=
  Table.find?_ofList (nameTypes_fst host ▸ distinct)
    (List.mem_append_left _ (List.mem_map_of_mem hv))

/-- A variable of the host is known with its type. -/
theorem seedTypes_external (init : host.Initialized s)
    (apart : ∀ n ∈ host.names, n ∉ Builtin.all.map Builtin.name) {v : HostVariable}
    (hv : v ∈ host.externals) : host.seedTypes.find? v.name = some v.type := by
  have hno := apart v.name (List.mem_append_left _ (List.mem_map_of_mem hv))
  have other : ∀ b : Builtin, b.name ≠ v.name := fun b e =>
    hno (e ▸ List.mem_map_of_mem b.mem_all)
  rw [seedTypes_host other, nameTypes_variable init.distinct hv]

/-- The types of an accepted program describe it. -/
theorem Compiled.describes (hc : Compiled source host c)
    (quiet : ∀ f ∈ host.functions, f.Quiet) (init : host.Initialized s) :
    (typesOf source host c.statements exact).Describes (tokensOf source host) where
  token t ht hk := by
    have h : (scan source host.seedTypes).types.find? t.lexeme = some t.type := scan_type ht hk
    show t.type = ((scan source host.seedTypes).types.find? t.lexeme).getD .unknown
    rw [h, Option.getD_some]
  declared type t h := by
    have ht : t.type = type := scan_declared hc.scanned h
    have hn : (scan source host.seedTypes).types.find? t.lexeme = some t.type :=
      scan_type h.mem.1 h.mem.2
    show ((scan source host.seedTypes).types.find? t.lexeme).getD .unknown = type
    rw [hn, Option.getD_some, ht]
  plain n := by
    have h : (scan source host.seedTypes).types.find? n ≠ some .any := by
      refine scan_plain fun e => ?_
      cases seedTypes_plain quiet init e
    show ((scan source host.seedTypes).types.find? n).getD .unknown ≠ .any
    cases ht : (scan source host.seedTypes).types.find? n with
    | none => simp
    | some type =>
      rintro rfl
      exact h ht
  result n signature h := by
    rcases List.mem_append.1 (Table.mem_of_find?_ofList h) with h | h
    · rcases List.mem_append.1 h with h | h
      · obtain ⟨b, -, e⟩ := List.mem_map.1 h
        cases e
        cases b <;> rfl
      · obtain ⟨f, hf, e⟩ := List.mem_map.1 h
        cases e
        rcases (quiet f hf).result with e | ⟨k, e⟩ <;> rw [e] <;> rfl
    · obtain ⟨part, hpart, header, hheader, rfl, rfl⟩ := (mem_declaredIn c.statements).1 h
      have written := hc.written.2 part hpart
      cases part with
      | function header' body =>
        cases hheader
        rcases written.1.cases with e | ⟨k, e⟩ | ⟨k, e⟩ <;> simp only [Header.signature] <;>
          rw [e] <;> rfl
      | _ => cases hheader
  called n signature h := by
    show n ∈ functionNames host c.statements
    rw [← signatureEntries_fst]
    exact List.mem_map_of_mem (f := Prod.fst) (Table.mem_of_find?_ofList h)

/-- If no two functions share a name then the signature of a function is the one collected. -/
theorem find?_collect {statements : List Stmt} (once : (functionNames host statements).Nodup)
    {n : String} {signature : Signature} (h : (n, signature) ∈ signatureEntries host statements) :
    (Signatures.collect statements host).find? n = some signature := by
  refine Table.find?_ofList ?_ h
  rw [← signatureEntries, signatureEntries_fst]
  exact once

/-- An accepted program is typed. -/
theorem Compiled.typed (hc : Compiled source host c) (quiet : ∀ f ∈ host.functions, f.Quiet)
    (init : host.Initialized s) (once : (functionNames host c.statements).Nodup)
    (apart : exact → ∀ t ∈ stmtsUses c.statements, t.lexeme ∉ functionNames host c.statements) :
    StmtsTyped (typesOf source host c.statements exact) none false c.statements := by
  refine StmtsChecked.typed (hc.describes quiet init) c.statements hc.checked ⟨hc.written.1, ?_⟩
    apart (by simp)
  intro part hpart
  refine ⟨hc.written.2 part hpart, fun header hheader => find?_collect once ?_⟩
  rw [signatureEntries, List.mem_append]
  exact .inr ((mem_declaredIn c.statements).2 ⟨part, hpart, header, hheader, rfl, rfl⟩)

theorem served (quiet : ∀ f ∈ host.functions, f.Quiet)
    (replies : exact → ∀ f ∈ host.functions, f.Replies) (statements : List Stmt) :
    (typesOf source host statements exact).Served host := by
  intro name signature hp
  obtain ⟨f, hf, rfl⟩ := Option.map_eq_some_iff.1 hp
  have hmem := List.mem_of_find?_eq_some hf
  exact ⟨f, hf, rfl, quiet f hmem, fun he => replies he f hmem⟩

end Start

/-! ## The store of a program that starts -/

namespace Machine

variable {T : Types} {host : Host ω} {g : ScopeId} {s t : Store}

/-- A name is provided that can be bound to this value. -/
theorem sound_provide (h : t.Sound T g) {n : String} {v : Value} (hv : T.Bound t n v) :
    (provide g t n v).Sound T g ∧ Store.Later T.name g t (provide g t n v) := by
  unfold provide
  split
  · exact ⟨h, StoreOrder.refl t⟩
  · next hb => exact ⟨h.bind hv, Store.later_bind (.inl (Bool.eq_false_iff.2 hb))⟩

theorem sound_provideFunction (h : t.Sound T g) {k : Callable} (hk : k.isScript = false)
    (hp : T.Provided k) (hσ : T.signatures.find? k.name = some k.signature)
    (hf : T.exact → T.functions k.name) : (provideFunction g t k).Sound T g := by
  have made : (t.newFunction k).2.Sound T g := by
    refine h.newFunction fun header body closure e => ?_
    subst e
    cases hk
  exact (sound_provide made
    (.inl ⟨_, k, rfl, by simp [Store.newFunction], hp, hσ, hf⟩)).1

theorem arrays_provideFunction (t : Store) (k : Callable) :
    (provideFunction g t k).arrays = t.arrays := by
  unfold provideFunction provide
  dsimp only
  split <;> rfl

/-- Variables of the host are provided whose names are not bound yet. -/
theorem sound_provideVariables : ∀ (vs : List HostVariable) {t : Store}, t.Sound T g →
    g < t.scopes.size → (vs.map HostVariable.name).Nodup →
    (∀ v ∈ vs, t.HasShape v.initial v.type ∧ T.name v.name = v.type ∧
      (T.exact → ¬ T.functions v.name) ∧ t.binds g v.name = false) →
    (vs.foldl (provideVariable g) t).Sound T g ∧
      Store.Later T.name g t (vs.foldl (provideVariable g) t) ∧
      ∀ v ∈ vs, (vs.foldl (provideVariable g) t).Holds g v.name v.type
  | [], t, h, _, _, _ => ⟨h, StoreOrder.refl t, by simp⟩
  | v :: vs, t, h, hg, hn, hvs => by
    obtain ⟨hshape, hname, hexact, hfree⟩ := hvs v List.mem_cons_self
    have hext : t.Extends (t.copy v.initial).2 := (Store.build_extends _ t).1
    have hcopy := hshape.copy
    have hbound : T.Bound (t.copy v.initial).2 v.name (t.copy v.initial).1 :=
      .inr ⟨by rw [hname]; exact hcopy, hexact⟩
    have hfree' : (t.copy v.initial).2.binds g v.name = false := by
      rw [Store.binds, Store.lookup, hext.scopes]
      exact hfree
    have step : provideVariable g t v =
        (t.copy v.initial).2.bind g v.name (t.copy v.initial).1 := by
      unfold provideVariable provide
      simp only [hfree', Bool.false_eq_true, if_false]
    have hlater : Store.Later T.name g t (provideVariable g t v) := by
      rw [step]
      exact StoreOrder.trans hext.later (Store.later_bind (.inl hfree'))
    have hsound : (provideVariable g t v).Sound T g := by
      rw [step]
      exact (h.extends hext).bind hbound
    have hholds : (provideVariable g t v).Holds g v.name v.type := by
      have hg' : g < (t.copy v.initial).2.scopes.size := by
        rw [hext.scopes]
        exact hg
      refine ⟨(t.copy v.initial).1, ?_, ?_⟩
      · rw [step, Store.lookup_bind _ _ _ _ _ _ hg', if_pos ⟨rfl, rfl⟩]
      · rw [step]
        exact hcopy
    rw [List.map_cons, List.nodup_cons] at hn
    obtain ⟨rest, later, holds⟩ := sound_provideVariables vs hsound
      (Nat.lt_of_lt_of_le hg hlater.scopes) hn.2 fun w hw => by
        obtain ⟨hs, hrest⟩ := hvs w (List.mem_cons_of_mem v hw)
        refine ⟨hs.later hlater, hrest.1, hrest.2.1, ?_⟩
        have hne : w.name ≠ v.name := fun e => hn.1 (e ▸ List.mem_map_of_mem hw)
        rw [step, Store.binds, Store.lookup_bind_of_ne (.inr hne), Store.lookup, hext.scopes]
        exact hrest.2.2
    refine ⟨rest, StoreOrder.trans hlater later, fun w hw => ?_⟩
    rcases List.mem_cons.1 hw with rfl | hw
    · rw [← hname] at hholds ⊢
      exact later.bindings g _ (Nat.le_refl _) hholds
    · exact holds w hw

/-- The functions that a program finds when it starts have the types of the program. They come
first, and none of them has the name of a variable. -/
theorem sound_functions {source : String} {statements : List Stmt} {exact : Prop}
    (init : host.Initialized s) (once : (functionNames host statements).Nodup) :
    (newGlobals { host with externals := [] } s).2.Sound
      (typesOf source host statements exact) s.scopes.size := by
  refine newGlobals_induct (fun t => t.Sound _ _) ?_ ?_ ?_ ?_
  · refine ⟨fun c n v hle hv => ?_, fun f header body closure hf => ?_, fun c p hle hp => ?_⟩
    · rw [Store.lookup_newScope] at hv
      exact absurd (Store.lt_of_lookup hv) (Nat.not_lt.2 hle)
    · have := init.blank _ (Array.mem_of_getElem? hf)
      simp [Callable.isScript] at this
    · by_cases e : c = s.scopes.size
      · subst e
        rw [Store.parent?_newScope_self] at hp
        cases hp
      · rw [Store.parent?_newScope e] at hp
        exact absurd (Store.lt_of_parent? hp) (Nat.not_lt.2 hle)
  · intro t b h
    have hb : (b.name, b.signature) ∈ signatureEntries host statements :=
      List.mem_append_left _ (List.mem_append_left _
        (List.mem_map_of_mem (f := fun b : Builtin => (b.name, b.signature)) b.mem_all))
    exact sound_provideFunction h rfl (by simp [Types.Provided]) (find?_collect once hb) fun _ =>
      List.mem_append_left _ (List.mem_append_left _ (List.mem_map_of_mem b.mem_all))
  · intro t f hf h
    have hσ : (f.name, f.signature) ∈ signatureEntries host statements :=
      List.mem_append_left _ (List.mem_append_right _
        (List.mem_map_of_mem (f := fun f : HostFunction ω => (f.name, f.signature)) hf))
    refine sound_provideFunction h rfl ?_ (find?_collect once hσ) fun _ =>
      List.mem_append_left _ (List.mem_append_right _ (List.mem_map_of_mem hf))
    rintro name signature e
    cases e
    show (host.function? f.name).map HostFunction.signature = some f.signature
    rw [Host.function?_of_mem init.distinct hf, Option.map_some]
  · exact fun _ _ hv => absurd hv List.not_mem_nil

/-- The name of a variable of the host has the type of the variable in every source. -/
theorem typesOf_external {source : String} {statements : List Stmt} {exact : Prop}
    (init : host.Initialized s) (apart : ∀ n ∈ host.names, n ∉ Builtin.all.map Builtin.name)
    {v : HostVariable} (hv : v ∈ host.externals) :
    (typesOf source host statements exact).name v.name = v.type := by
  have hu : v.type ≠ .unknown := by
    intro e
    have := (init.data v hv).1
    rw [e] at this
    cases this
  show ((scan source host.seedTypes).types.find? v.name).getD .unknown = v.type
  rw [scan_seed (seedTypes_external init apart hv) hu, Option.getD_some]

/-- The store of a program that starts is typed, and the variables of the host hold values of
their types. -/
theorem sound_newGlobals {source : String} {statements : List Stmt} {exact : Prop}
    (init : host.Initialized s) (apart : ∀ n ∈ host.names, n ∉ Builtin.all.map Builtin.name)
    (once : (functionNames host statements).Nodup)
    (hexact : exact → ∀ v ∈ host.externals, v.name ∉ functionNames host statements) :
    (newGlobals host s).2.Sound (typesOf source host statements exact) s.scopes.size ∧
      ∀ v ∈ host.externals, (newGlobals host s).2.Holds s.scopes.size v.name v.type ∧
        (typesOf source host statements exact).name v.name = v.type := by
  have started := begun { host with externals := [] } s
  have arrays : (newGlobals { host with externals := [] } s).2.arrays = s.arrays := by
    refine newGlobals_induct (fun t => t.arrays = s.arrays) rfl ?_ ?_ ?_
    · exact fun t b h => (arrays_provideFunction t _).trans h
    · exact fun t f _ h => (arrays_provideFunction t _).trans h
    · exact fun _ _ hv => absurd hv List.not_mem_nil
  have names : ∀ v ∈ host.externals,
      (typesOf source host statements exact).name v.name = v.type :=
    fun v hv => typesOf_external init apart hv
  obtain ⟨sound, -, holds⟩ := sound_provideVariables host.externals
    (sound_functions init once)
    (by rw [started.size]; exact Nat.lt_succ_self _) (List.nodup_append.1 init.distinct).1
    fun v hv => by
      refine ⟨?_, names v hv, fun he => hexact he v hv, ?_⟩
      · exact (init.initial v hv).filled fun a _ hf => Store.filled_congr hf (by rw [arrays])
      · by_contra hb
        have hmem := started.names v.name (Bool.not_eq_false _ ▸ hb)
        have hname : v.name ∈ host.externals.map HostVariable.name := List.mem_map_of_mem hv
        simp only [Host.reservedNames, List.map_nil, List.append_nil, List.mem_append] at hmem
        rcases hmem with hmem | hmem
        · exact apart v.name (List.mem_append_left _ hname) hmem
        · exact (List.nodup_append.1 init.distinct).2.2 _ hname _ hmem rfl
  exact ⟨sound, fun v hv => ⟨holds v hv, names v hv⟩⟩

end Machine

end TickScript
