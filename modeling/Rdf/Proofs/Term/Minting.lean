import Mathlib.Data.Set.Function
import Rdf.Context
import Rdf.Proofs.Uuid.Texts

/-!
# What blank nodes are minted for

A scope mints a blank node for a label, or for a blank node of another scope that it adopts. The
reference is hashed from the salt of the scope and a name: the UTF-8 form of the label, or a byte
that never occurs in UTF-8 followed by the 32 bytes of the foreign node. Labels are of any length
and of any characters, so they may look like anything but that byte. Main statements:

* `Origin.input_eq_iff`: the hashed bytes tell the scope and the origin;
* `Origin.reference_eq_iff`: so do the references, as long as no two of the hashed inputs collide;
* `Origin.eq_node_of_mint`, `Origin.mint_full`: what contexts answer is what their scope mints.
-/

namespace Rdf

/-! ## Hashed inputs -/

namespace Uuid

/-- The identifier that is made of a hashed input. -/
def ofHashed (input : List UInt8) : Uuid :=
  ofNat (markNamed (Bytes.toNat ((Sha1.digest input).take 16)))

theorem named_eq (space : Uuid) (name : List UInt8) :
    named space name = ofHashed (namedInput space name) := rfl

/-- The namespace has a fixed width, so that the name cannot reach into it. -/
theorem namedInput_eq_iff {space space' : Uuid} {name name' : List UInt8} :
    namedInput space name = namedInput space' name' ↔ space = space' ∧ name = name' := by
  unfold namedInput
  constructor
  · intro h
    have hparts := List.append_inj h (by rw [length_bytes, length_bytes])
    exact ⟨bytes_injective hparts.1, hparts.2⟩
  · rintro ⟨rfl, rfl⟩
    rfl

end Uuid

namespace Scope

theorem foreignName_injective : Function.Injective foreignName := by
  rintro ⟨⟨salt⟩, reference⟩ ⟨⟨salt'⟩, reference'⟩ h
  simp only [foreignName, List.cons_append, List.cons.injEq, true_and] at h
  have hparts := Uuid.namedInput_eq_iff.1 h
  rw [hparts.1, Uuid.bytes_injective hparts.2]

end Scope

/-! ## Origins -/

/-- What a blank node is minted for: a label, or a blank node of another scope. -/
inductive Origin where
  | label (text : String)
  | foreign (b : BlankNode)

namespace Origin

/-- The name that the reference is derived from. -/
def name : Origin → List UInt8
  | .label text => Bytes.utf8 text
  | .foreign b => Scope.foreignName b

/-- The bytes that a scope hashes. -/
def input (s : Scope) (r : Origin) : List UInt8 := Uuid.namedInput s.salt r.name

/-- The blank node of a scope. -/
def node (s : Scope) : Origin → BlankNode
  | .label text => .labeled s text
  | .foreign b => b.adoptedBy s

/-- Whether a scope has to mint a blank node. It keeps its own. -/
def IsNew (s : Scope) : Origin → Prop
  | .label _ => True
  | .foreign b => b.scope ≠ s

/-- The answer of a context that is asked for the blank node. -/
def mint (c : Context) : Origin → Except TermError BlankNode
  | .label text => c.labeledBlankNode text
  | .foreign b => c.adopt b

variable {s s₁ s₂ : Scope} {r r₁ r₂ : Origin} {inputs : Set (List UInt8)}

/-- No label has the name of a foreign node, since that begins with a byte outside UTF-8. -/
theorem utf8_ne_foreignName (text : String) (b : BlankNode) :
    Bytes.utf8 text ≠ Scope.foreignName b := by
  intro h
  apply Bytes.notMem_utf8 text
  rw [h]
  exact List.mem_cons_self

theorem name_injective : Function.Injective name := by
  intro r₁ r₂ h
  cases r₁ with
  | label text₁ =>
    cases r₂ with
    | label text₂ => exact congrArg label (Bytes.utf8_injective h)
    | foreign b₂ => exact absurd h (utf8_ne_foreignName text₁ b₂)
  | foreign b₁ =>
    cases r₂ with
    | label text₂ => exact absurd h.symm (utf8_ne_foreignName text₂ b₁)
    | foreign b₂ => exact congrArg foreign (Scope.foreignName_injective h)

/-- The hashed bytes tell the scope and the origin. -/
theorem input_eq_iff : r₁.input s₁ = r₂.input s₂ ↔ s₁ = s₂ ∧ r₁ = r₂ := by
  unfold input
  rw [Uuid.namedInput_eq_iff, name_injective.eq_iff, Scope.mk.injEq]

/-! ## References -/

theorem node_eq (h : r.IsNew s) : r.node s = ⟨s, Uuid.ofHashed (r.input s)⟩ := by
  cases r with
  | label text => exact congrArg (BlankNode.mk s) (Uuid.named_eq s.salt _)
  | foreign b =>
    show b.adoptedBy s = _
    unfold BlankNode.adoptedBy
    rw [if_neg (Ne.symm h)]
    exact congrArg (BlankNode.mk s) (Uuid.named_eq s.salt _)

/-- The references tell the scope and the origin, if no two of the hashed inputs collide. -/
theorem reference_eq_iff (hinputs : Set.InjOn Uuid.ofHashed inputs)
    (h₁ : r₁.IsNew s₁) (h₂ : r₂.IsNew s₂) (hr₁ : r₁.input s₁ ∈ inputs) (hr₂ : r₂.input s₂ ∈ inputs) :
    (r₁.node s₁).reference = (r₂.node s₂).reference ↔ s₁ = s₂ ∧ r₁ = r₂ := by
  rw [node_eq h₁, node_eq h₂, ← input_eq_iff]
  exact hinputs.eq_iff hr₁ hr₂

/-- So do the blank nodes. -/
theorem node_eq_iff (hinputs : Set.InjOn Uuid.ofHashed inputs)
    (h₁ : r₁.IsNew s₁) (h₂ : r₂.IsNew s₂) (hr₁ : r₁.input s₁ ∈ inputs) (hr₂ : r₂.input s₂ ∈ inputs) :
    r₁.node s₁ = r₂.node s₂ ↔ s₁ = s₂ ∧ r₁ = r₂ := by
  constructor
  · intro h
    exact (reference_eq_iff hinputs h₁ h₂ hr₁ hr₂).1 (congrArg BlankNode.reference h)
  · rintro ⟨rfl, rfl⟩
    rfl

/-! ## Contexts -/

variable {c : Context} {b : BlankNode}

/-- A context answers with the blank node of its scope, if it answers with one. -/
theorem eq_node_of_mint (hc : c.scope = some s) (h : r.mint c = .ok b) : b = r.node s := by
  cases r with
  | label text =>
    unfold mint Context.labeledBlankNode Context.needScope at h
    simp only [hc, bind, Except.bind] at h
    split at h
    · cases h
    · split at h
      · cases h
      · exact (Except.ok.inj h).symm
  | foreign b' =>
    unfold mint Context.adopt Context.needScope at h
    rw [hc] at h
    exact (Except.ok.inj h).symm

/-- The context that offers everything does, unless the label is empty. -/
theorem mint_full (h : ∀ text, r = .label text → text ≠ "") :
    r.mint (.full s) = .ok (r.node s) := by
  cases r with
  | label text =>
    show (if text = "" then Except.error TermError.emptyLabel else .ok _) = _
    rw [if_neg (h text rfl)]
    rfl
  | foreign b => rfl

end Origin

end Rdf
