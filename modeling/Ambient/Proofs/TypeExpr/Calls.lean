import Ambient.Proofs.TypeExpr.Typos
import Mathlib.Data.List.Chain
import Mathlib.Data.Prod.Lex
import Mathlib.Order.WellFounded

/-!
# Correcting while writing

Types may as well be written in one go, where a name that has a correction gives way to it at the
moment when it is written. A call of such writing deals with a text, an expression or a name, and
leaves the rest to further calls. A correction is a text of its own: it can be longer than the type
that it comes up in, and name what it corrects. Calls end nevertheless, since what has been put in
place is not corrected again; and they write what is written after all names have been corrected.
-/

namespace Ambient.TypeExpr

open Declaration (Resolver Writing Page warn)

/-- The part of writing that a call deals with; the flag says whether names are still corrected. -/
inductive Call where
  | reading (raw : String) (corrects : Bool)
  | writing (expr : TypeExpr) (corrects : Bool)
  | naming (word : String) (args : List TypeExpr) (corrects : Bool)
deriving DecidableEq

/-- What a name gives way to, if names are corrected. -/
def correction? (typos : Ordered.Map String String) (word : String) (corrects : Bool) :
    Option String :=
  if corrects then typos.get? word else none

/-- An expression with its names corrected, if they are. -/
def fixing (typos : Ordered.Map String String) (corrects : Bool) (expr : TypeExpr) : TypeExpr :=
  if corrects then correct typos expr else expr

namespace Call

/-! ## One call after the other -/

/-- Writing that may be given up. -/
abbrev Attempt := StateT Page Option

/-- Writing that is not given up. -/
def whole {α : Type} (writing : Writing α) : Attempt α := fun page => some (writing.run page)

section Steps

variable (r : Resolver) (go : Call → Attempt String)

/-- What a call does itself, where `go` answers the calls that it makes. -/
def step : Call → Attempt String
  | .reading raw corrects =>
    match parse? raw with
    | some expr => go (.writing expr corrects)
    | none => do
      whole (warn .simplified ("type `" ++ raw ++ "` could not be parsed; emitted as any"))
      return "any"
  | .writing (.name word args) corrects => go (.naming word args corrects)
  | .writing (.array item) corrects => do return arrayOf (← go (.writing item corrects))
  | .writing (.union members) corrects => do
    return alternatives (← members.mapM fun member => go (.writing member corrects))
  | .writing (.keyof operand) corrects => do return "keyof " ++ (← go (.writing operand corrects))
  | .writing (.literal text) _ => return text
  | .writing .function _ => return "Function"
  | .writing (.unparsed raw) _ => do
    whole (warn .simplified ("type `" ++ raw ++ "` could not be parsed; emitted as any"))
    return "any"
  | .naming word args corrects =>
    match correction? r.directives.typos word corrects with
    | some fixed => if args.isEmpty then go (.reading fixed false) else go (.naming fixed args false)
    | none => do whole (writeName r word (← args.mapM fun arg => go (.writing arg corrects)))

/-- Writing that is given up if calls are nested more deeply than a bound. -/
def attempt : Nat → Call → Attempt String
  | 0, _ => failure
  | depth + 1, call => call.step r (attempt depth)

end Steps

/-- The calls that a call makes. -/
def callees (typos : Ordered.Map String String) : Call → List Call
  | .reading raw corrects => ((parse? raw).map (.writing · corrects)).toList
  | .writing (.name word args) corrects => [.naming word args corrects]
  | .writing (.array item) corrects => [.writing item corrects]
  | .writing (.union members) corrects => members.map (.writing · corrects)
  | .writing (.keyof operand) corrects => [.writing operand corrects]
  | .writing (.literal _) _ | .writing .function _ | .writing (.unparsed _) _ => []
  | .naming word args corrects =>
    match correction? typos word corrects with
    | some fixed => if args.isEmpty then [.reading fixed false] else [.naming fixed args false]
    | none => args.map (.writing · corrects)

/-- Whether a call corrects names. -/
def corrects : Call → Bool
  | .reading _ corrects | .writing _ corrects | .naming _ _ corrects => corrects

/-- Whether a call replaces its name by a correction. -/
def isReplaced (typos : Ordered.Map String String) : Call → Bool
  | .reading _ _ | .writing _ _ => false
  | .naming word _ corrects => (correction? typos word corrects).isSome

/-- What a call writes, where all names have been corrected before. -/
def outcome (r : Resolver) : Call → Writing String
  | .reading raw corrects => write r (fixing r.directives.typos corrects (ofText raw))
  | .writing expr corrects => write r (fixing r.directives.typos corrects expr)
  | .naming word args corrects => write r (fixing r.directives.typos corrects (.name word args))

variable {typos : Ordered.Map String String} {call callee : Call}

/-- A call knows the rest only through the calls that it makes. -/
theorem step_congr {r : Resolver} {go other : Call → Attempt String}
    (h : ∀ callee ∈ call.callees r.directives.typos, go callee = other callee) :
    call.step r go = call.step r other := by
  -- Members and arguments are called one after another, each with the same flag.
  have hall {exprs : List TypeExpr} {corrects : Bool}
      (hexprs : ∀ expr ∈ exprs, go (.writing expr corrects) = other (.writing expr corrects)) :
      (exprs.mapM fun expr => go (.writing expr corrects))
        = exprs.mapM fun expr => other (.writing expr corrects) := by
    induction exprs with
    | nil => rfl
    | cons expr rest ih =>
      rw [List.mapM_cons, List.mapM_cons, hexprs expr List.mem_cons_self,
        ih fun expr hexpr => hexprs expr (List.mem_cons_of_mem _ hexpr)]
  cases call with
  | reading raw corrects =>
    rw [step, step]
    cases hparse : parse? raw with
    | none => rfl
    | some expr => exact h _ (by simp [callees, hparse])
  | writing expr corrects =>
    cases expr with
    | name word args => exact h _ (by simp [callees])
    | array item => rw [step, step, h _ (by simp [callees])]
    | union members =>
      rw [step, step, hall fun expr hexpr => h _ (List.mem_map_of_mem hexpr)]
    | keyof operand => rw [step, step, h _ (by simp [callees])]
    | literal | function | unparsed => rfl
  | naming word args corrects =>
    rw [step, step]
    rw [callees] at h
    cases hfixed : correction? r.directives.typos word corrects with
    | none =>
      rw [hfixed] at h
      simp only [hall fun expr hexpr => h _ (List.mem_map_of_mem hexpr)]
    | some fixed =>
      rw [hfixed] at h
      cases args with
      | nil => exact h _ (by simp)
      | cons arg rest => exact h _ (by simp)

/-! ## What calls write -/

/-- If each action is run as a whole, then so is the list of them. -/
theorem whole_mapM {α β : Type} (f : α → Writing β) (list : List α) :
    (list.mapM fun a => whole (f a)) = whole (list.mapM f) := by
  induction list with
  | nil => rfl
  | cons a rest ih =>
    rw [List.mapM_cons, List.mapM_cons, ih]
    rfl

/-- Expressions in a row are written one after another, corrected first if they are to be. -/
theorem writeAll_map (r : Resolver) (corrects : Bool) (exprs : List TypeExpr) :
    (exprs.mapM fun expr => write r (fixing r.directives.typos corrects expr))
      = writeAll r (if corrects then correctAll r.directives.typos exprs else exprs) := by
  induction exprs with
  | nil => cases corrects <;> rfl
  | cons expr rest ih =>
    rw [List.mapM_cons, ih]
    cases corrects <;> rfl

/-- If the calls that a call makes write what is written after correction, so does the call. -/
theorem step_outcome (r : Resolver) (call : Call) :
    call.step r (fun callee => whole (callee.outcome r)) = whole (call.outcome r) := by
  cases call with
  | reading raw corrects =>
    rw [step, outcome, ofText]
    cases parse? raw with
    | none => cases corrects <;> rfl
    | some expr => rfl
  | writing expr corrects =>
    cases expr with
    | union members =>
      have hmembers := whole_mapM
        (fun expr => write r (fixing r.directives.typos corrects expr)) members
      rw [writeAll_map] at hmembers
      simp only [step, outcome, hmembers]
      cases corrects <;> rfl
    | name | array | keyof | literal | function | unparsed => cases corrects <;> rfl
  | naming word args corrects =>
    have hargs := whole_mapM (fun expr => write r (fixing r.directives.typos corrects expr)) args
    rw [writeAll_map] at hargs
    simp only [step, outcome, hargs]
    cases corrects with
    | false => rfl
    | true =>
      simp only [correction?, fixing, correct, if_true]
      cases r.directives.typos.get? word with
      | none => rfl
      | some fixed => cases args <;> rfl

/-! ## The end of calls -/

/-- What becomes less from a call to those that it makes: first whether names are corrected and
whether a text is still to be read, then the size of what is written. -/
noncomputable def rank : Call → Nat × Nat
  | .reading _ corrects => (2 * corrects.toNat + 1, 0)
  | .writing expr corrects => (2 * corrects.toNat, 2 * sizeOf expr + 1)
  | .naming word args corrects => (2 * corrects.toNat, 2 * sizeOf (TypeExpr.name word args))

/-- A call leads to calls of smaller rank. -/
theorem rank_lt (h : callee ∈ call.callees typos) : toLex callee.rank < toLex call.rank := by
  rw [Prod.Lex.toLex_lt_toLex]
  cases call with
  | reading raw corrects =>
    obtain ⟨expr, -, rfl⟩ := by simpa [callees] using h
    exact .inl (Nat.lt_succ_self _)
  | writing expr corrects =>
    cases expr with
    | name word args =>
      obtain rfl := List.mem_singleton.mp h
      exact .inr ⟨rfl, Nat.lt_succ_self _⟩
    | array item =>
      obtain rfl := List.mem_singleton.mp h
      refine .inr ⟨rfl, ?_⟩
      simp only [rank, array.sizeOf_spec]
      omega
    | union members =>
      obtain ⟨member, hmember, rfl⟩ := List.mem_map.mp h
      have hsize := List.sizeOf_lt_of_mem hmember
      refine .inr ⟨rfl, ?_⟩
      simp only [rank, union.sizeOf_spec]
      omega
    | keyof operand =>
      obtain rfl := List.mem_singleton.mp h
      refine .inr ⟨rfl, ?_⟩
      simp only [rank, keyof.sizeOf_spec]
      omega
    | literal | function | unparsed => simp [callees] at h
  | naming word args corrects =>
    rw [callees] at h
    split at h
    · next fixed hfixed =>
      -- A name gives way only while names are corrected, and its correction is not corrected.
      obtain rfl : corrects = true := by
        by_contra hnot
        simp [correction?, hnot] at hfixed
      split at h <;> obtain rfl := List.mem_singleton.mp h <;> exact .inl (by simp [rank])
    · obtain ⟨arg, harg, rfl⟩ := List.mem_map.mp h
      have hsize := List.sizeOf_lt_of_mem harg
      refine .inr ⟨rfl, ?_⟩
      simp only [rank, name.sizeOf_spec]
      omega

/-- Calls make calls of their own only so far, whatever the corrections are. -/
theorem wellFounded_callees (typos : Ordered.Map String String) :
    WellFounded fun callee call : Call => callee ∈ call.callees typos :=
  Subrelation.wf rank_lt (InvImage.wf (fun call : Call => toLex call.rank) wellFounded_lt)

/-- If for each of some calls there is a depth from which on something holds, then there is one for
all. -/
theorem exists_bound {P : Call → Nat → Prop} {calls : List Call}
    (h : ∀ call ∈ calls, ∃ depth, ∀ more ≥ depth, P call more) :
    ∃ depth, ∀ call ∈ calls, ∀ more ≥ depth, P call more := by
  induction calls with
  | nil => exact ⟨0, by simp⟩
  | cons call rest ih =>
    obtain ⟨hcall, hrest⟩ := List.forall_mem_cons.mp h
    obtain ⟨first, hfirst⟩ := hcall
    obtain ⟨second, hsecond⟩ := ih hrest
    refine ⟨max first second, List.forall_mem_cons.mpr ⟨fun more hmore => ?_, ?_⟩⟩
    · exact hfirst more (le_trans (le_max_left _ _) hmore)
    · exact fun call hcall more hmore => hsecond call hcall more (le_trans (le_max_right _ _) hmore)

/-- With enough nesting every call comes to an end, and writes what is written after correction. -/
theorem exists_attempt_eq (r : Resolver) (call : Call) :
    ∃ depth, ∀ more ≥ depth, call.attempt r more = whole (call.outcome r) := by
  induction call using (wellFounded_callees r.directives.typos).induction with
  | _ call ih =>
    obtain ⟨depth, hdepth⟩ := exists_bound ih
    refine ⟨depth + 1, fun more hmore => ?_⟩
    obtain ⟨more, rfl⟩ := Nat.exists_eq_succ_of_ne_zero (show more ≠ 0 by omega)
    rw [attempt, step_congr fun callee hcallee => hdepth callee hcallee more (by omega),
      step_outcome]

/-! ## Names that give way -/

/-- Only a call that corrects is replaced. -/
theorem corrects_of_isReplaced (h : call.isReplaced typos = true) : call.corrects = true := by
  cases call with
  | reading | writing => simp [isReplaced] at h
  | naming word args corrects =>
    by_contra hnot
    simp only [Call.corrects, Bool.not_eq_true] at hnot
    simp [isReplaced, correction?, hnot] at h

/-- A call makes calls that correct names only if it does so itself and does not replace its own
name. -/
theorem corrects_callee (h : callee ∈ call.callees typos) (hcallee : callee.corrects = true) :
    call.corrects = true ∧ call.isReplaced typos = false := by
  cases call with
  | reading raw corrects =>
    obtain ⟨expr, -, rfl⟩ := by simpa [callees] using h
    exact ⟨hcallee, rfl⟩
  | writing expr corrects =>
    refine ⟨?_, rfl⟩
    cases expr with
    | name | array | keyof =>
      obtain rfl := List.mem_singleton.mp h
      exact hcallee
    | union members =>
      obtain ⟨member, -, rfl⟩ := List.mem_map.mp h
      exact hcallee
    | literal | function | unparsed => simp [callees] at h
  | naming word args corrects =>
    rw [callees] at h
    split at h
    · split at h <;> obtain rfl := List.mem_singleton.mp h <;> simp [Call.corrects] at hcallee
    · next hfixed =>
      obtain ⟨arg, -, rfl⟩ := List.mem_map.mp h
      exact ⟨hcallee, by rw [isReplaced, hfixed]; rfl⟩

/-- Along calls that each make the next one, nothing is replaced from where names are not corrected
any more. -/
theorem countP_isReplaced_eq_zero {chain : List Call}
    (h : (call :: chain).IsChain fun call callee => callee ∈ call.callees typos)
    (hcall : call.corrects = false) : (call :: chain).countP (isReplaced typos) = 0 := by
  have hnot {call : Call} (hcall : call.corrects = false) : ¬ call.isReplaced typos = true :=
    fun hreplaced => by simp [corrects_of_isReplaced hreplaced] at hcall
  induction chain generalizing call with
  | nil => simpa using hnot hcall
  | cons callee rest ih =>
    obtain ⟨hmem, hrest⟩ := List.isChain_cons_cons.mp h
    have hcallee : callee.corrects = false := by
      by_contra hcorrects
      have hcontra := (corrects_callee hmem (by simpa using hcorrects)).1
      rw [hcall] at hcontra
      cases hcontra
    rw [List.countP_cons_of_neg (hnot hcall), ih hrest hcallee]

/-- Along calls that each make the next one, at most one name is replaced. -/
theorem countP_isReplaced_le_one {chain : List Call}
    (h : chain.IsChain fun call callee => callee ∈ call.callees typos) :
    chain.countP (isReplaced typos) ≤ 1 := by
  induction chain with
  | nil => simp
  | cons call rest ih =>
    cases rest with
    | nil => exact List.countP_le_length
    | cons callee rest =>
      obtain ⟨hmem, hrest⟩ := List.isChain_cons_cons.mp h
      by_cases hreplaced : call.isReplaced typos = true
      · have hcallee : callee.corrects = false := by
          by_contra hcorrects
          have hcontra := (corrects_callee hmem (by simpa using hcorrects)).2
          rw [hreplaced] at hcontra
          cases hcontra
        rw [List.countP_cons_of_pos hreplaced, countP_isReplaced_eq_zero hrest hcallee]
      · rw [List.countP_cons_of_neg hreplaced]
        exact ih hrest

end Call

/-- Whatever the corrections are, writing a text while names are corrected ends: with enough nesting
of calls it comes to what is written after correction, and no calls follow each other for ever.
Along calls that each make the next one, at most one name is replaced. -/
theorem correcting_ends (r : Resolver) (raw : String) (corrects : Bool) (page : Page) :
    (∃ depth, ∀ more ≥ depth, (Call.reading raw corrects).attempt r more page
        = some ((write r (fixing r.directives.typos corrects (ofText raw))).run page)) ∧
      (∀ calls : Nat → Call, ∃ n, calls (n + 1) ∉ (calls n).callees r.directives.typos) ∧
      ∀ chain : List Call,
        (chain.IsChain fun call callee => callee ∈ call.callees r.directives.typos) →
          chain.countP (Call.isReplaced r.directives.typos) ≤ 1 := by
  refine ⟨?_, fun calls => ?_, fun chain => Call.countP_isReplaced_le_one⟩
  · obtain ⟨depth, hdepth⟩ := Call.exists_attempt_eq r (.reading raw corrects)
    exact ⟨depth, fun more hmore => congrFun (hdepth more hmore) page⟩
  · by_contra hforever
    simp only [not_exists, not_not] at hforever
    exact (wellFounded_iff_isEmpty_descending_chain.mp
      (Call.wellFounded_callees r.directives.typos)).false ⟨calls, hforever⟩

/-- A resolver for a library without symbols, where the corrections of two names lead in a circle,
and that of the second one is a larger type with the name in it. -/
def circling : Resolver :=
  withTypos ⟨"app", .empty "app", .empty, [], []⟩
    ((Ordered.Map.empty.insertNew "Left" "Right").insertNew "Right" "Array<Left | Right[]>")

/-- The calls from a type down to a name that is put in place. -/
def circlingCalls : List Call :=
  [.reading "Map<string, Right>" true,
    .writing (.name "Map" [.name "string" [], .name "Right" []]) true,
    .naming "Map" [.name "string" [], .name "Right" []] true,
    .writing (.name "Right" []) true, .naming "Right" [] true,
    .reading "Array<Left | Right[]>" false,
    .writing (.name "Array" [.union [.name "Left" [], .array (.name "Right" [])]]) false,
    .naming "Array" [.union [.name "Left" [], .array (.name "Right" [])]] false,
    .writing (.union [.name "Left" [], .array (.name "Right" [])]) false,
    .writing (.array (.name "Right" [])) false, .writing (.name "Right" []) false,
    .naming "Right" [] false]

/-- With corrections that lead in a circle, a type is written all the same, and a chain of calls has
one replacement at most. -/
theorem correcting_ends_circling :
    (∃ depth, ((Call.reading "Map<string, Right>" true).attempt circling depth default).map Prod.fst
        = some "Map<string, (any | any[])[]>") ∧
      (circlingCalls.IsChain fun call callee => callee ∈ call.callees circling.directives.typos) ∧
      circlingCalls.countP (Call.isReplaced circling.directives.typos) ≤ 1 := by
  obtain ⟨⟨depth, hdepth⟩, -, hreplaced⟩ :=
    correcting_ends circling "Map<string, Right>" true default
  have hchain : circlingCalls.IsChain fun call callee =>
      callee ∈ call.callees circling.directives.typos := by
    decide +kernel
  refine ⟨⟨depth, ?_⟩, hchain, hreplaced circlingCalls hchain⟩
  rw [hdepth depth (Nat.le_refl depth)]
  decide +kernel

end Ambient.TypeExpr
