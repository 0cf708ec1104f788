import PackageModularity.Resolution.ReferenceTarget
import Mathlib.Data.List.Induction

/-!
The type of a chain of fields that starts at a local. It is found by walking along the fields from
the local's type. But where the walk finds no field, the chain so far is read once more, as the name
of a type, although the local obscures the package or type that its first name could mean.
-/
namespace PackageModularity

/-- The receiver `x.f.g` for the fields `f` and `g`. -/
def Receiver.chain (x : String) (fields : List String) : Receiver :=
  fields.foldl Receiver.field (.name x)

def Name.chain (x : String) (fields : List String) : String := fields.foldl Name.inside x

theorem Receiver.chain_concat (x : String) (fields : List String) (f : String) :
    chain x (fields ++ [f]) = .field (chain x fields) f := by
  rw [chain, List.foldl_append]
  rfl

theorem Name.chain_concat (x : String) (fields : List String) (f : String) :
    chain x (fields ++ [f]) = inside (chain x fields) f := by
  rw [chain, List.foldl_append]
  rfl

theorem Receiver.dottedName?_chain (x : String) (fields : List String) :
    (chain x fields).dottedName? = some (Name.chain x fields) := by
  induction fields using List.reverseRecOn with
  | nil => rfl
  | append_singleton fields f ih =>
    rw [chain_concat, Name.chain_concat, dottedName?, ih]
    rfl

namespace TypeTable

variable (t : TypeTable)

/-- A field found in a source type or above it, with the type that declares it. -/
def fieldOf? (object : Option TypeRef) (name : String) : Option (TypeSymbol × String) :=
  (object.bind TypeRef.known?).bind (t.findField name)

/-- The type that is reached from another along some fields, if each is found. -/
def typeAlong? (start : Option TypeRef) (fields : List String) : Option TypeRef :=
  fields.foldl (fun object f => (t.fieldOf? object f).bind fun p => t.typeInBody? p.1 p.2) start

theorem typeAlong?_concat (start : Option TypeRef) (fields : List String) (f : String) :
    t.typeAlong? start (fields ++ [f]) =
      (t.fieldOf? (t.typeAlong? start fields) f).bind fun p => t.typeInBody? p.1 p.2 := by
  rw [typeAlong?, List.foldl_append]
  rfl

variable {t} {c : FileContext} {scope : Scope} {x type : String}

theorem receiverType?_local (hx : scope.locals.get? x = some type) :
    t.receiverType? c scope (Receiver.chain x []) = t.writtenType? c scope type := by
  show t.receiverType? c scope (.name x) = _
  rw [receiverType?, receiverTypes, Option.head?_toList, nameType?, hx]

theorem receiverType?_chain_concat (fields : List String) (f : String) :
    t.receiverType? c scope (Receiver.chain x (fields ++ [f])) =
      match t.fieldOf? (t.receiverType? c scope (Receiver.chain x fields)) f with
      | some (owner, written) => t.typeInBody? owner written
      | none => t.writtenType? c scope (Name.chain x (fields ++ [f])) := by
  have hname : (Receiver.field (Receiver.chain x fields) f).dottedName? =
      some (Name.chain x (fields ++ [f])) := by
    rw [← Receiver.chain_concat, Receiver.dottedName?_chain]
  rw [Receiver.chain_concat, receiverType?, receiverTypes, hname, Option.head?_toList]
  rfl

/-- The types agree one field further if the field is found, or if the chain spells no type. -/
theorem receiverType?_chain_concat_iff {start : Option TypeRef} {fields : List String} {f : String}
    (h : t.receiverType? c scope (Receiver.chain x fields) = t.typeAlong? start fields) :
    t.receiverType? c scope (Receiver.chain x (fields ++ [f])) =
        t.typeAlong? start (fields ++ [f]) ↔
      (t.fieldOf? (t.typeAlong? start fields) f = none →
        t.writtenType? c scope (Name.chain x (fields ++ [f])) = none) := by
  rw [receiverType?_chain_concat, typeAlong?_concat, h]
  cases t.fieldOf? (t.typeAlong? start fields) f with
  | none =>
    constructor
    · intro heq _
      exact heq
    · intro hnone
      exact hnone rfl
  | some p =>
    constructor
    · intro _ hp
      cases hp
    · intro _
      rfl

/-- A chain that starts at a local and all chains on the way to it have the types that walking along
the fields gives, exactly if none spells a type of the table where the walk ends. -/
theorem receiverType?_chain_iff (hx : scope.locals.get? x = some type) (fields : List String) :
    (∀ front, front <+: fields → t.receiverType? c scope (Receiver.chain x front) =
        t.typeAlong? (t.writtenType? c scope type) front) ↔
      ∀ front f, front ++ [f] <+: fields →
        t.fieldOf? (t.typeAlong? (t.writtenType? c scope type) front) f = none →
        t.writtenType? c scope (Name.chain x (front ++ [f])) = none := by
  induction fields using List.reverseRecOn with
  | nil =>
    constructor
    · intro _ front f hfront
      simp at hfront
    · intro _ front hfront
      rw [List.prefix_nil.1 hfront]
      exact receiverType?_local hx
  | append_singleton fields g ih =>
    constructor
    · intro h front f hfront
      have hshort := ih.1 fun front hfront => h front (hfront.trans (List.prefix_append _ _))
      rcases List.prefix_concat_iff.1 hfront with hlast | hfront
      · obtain ⟨rfl, hf⟩ := List.append_inj' hlast rfl
        obtain rfl := List.singleton_inj.1 hf
        exact (receiverType?_chain_concat_iff (h front (List.prefix_append _ _))).1
          (h _ List.prefix_rfl)
      · exact hshort front f hfront
    · intro h front hfront
      have hshort := ih.2 fun front f hfront => h front f (hfront.trans (List.prefix_append _ _))
      rcases List.prefix_concat_iff.1 hfront with rfl | hfront
      · exact (receiverType?_chain_concat_iff (hshort fields List.prefix_rfl)).2
          (h fields g List.prefix_rfl)
      · exact hshort front hfront

/-- `package model; class Item { Money price; } class Money { static Money of() {..} }` -/
def moneyFile : SourceUnit where
  path := Path.ofText "model/Money.java"
  context := ⟨some "model", Dict.empty, []⟩
  types := [⟨"model.Item", [], [], Dict.ofList [("price", "Money")], Dict.empty⟩,
    ⟨"model.Money", [], [], Dict.empty, Dict.ofList [("of", some "Money")]⟩]
  scopes := [Scope.empty]
  references := []

def priceFile : SourceUnit where
  path := Path.ofText "item/price.java"
  context := ⟨some "item", Dict.empty, []⟩
  types := [⟨"item.price", [], [], Dict.empty, Dict.empty⟩]
  scopes := [Scope.empty]
  references := []

/-- A method with the locals `Item item` and `Settings model`. -/
def shopScope : Scope := ⟨["app.Shop"], Dict.ofList [("item", "Item"), ("model", "Settings")]⟩

def shopFile : SourceUnit where
  path := Path.ofText "app/Shop.java"
  context := ⟨some "app", Dict.ofList [("Item", "model.Item"), ("Settings", "lib.Settings")], []⟩
  types := [⟨"app.Shop", [], [], Dict.empty, Dict.empty⟩]
  scopes := [Scope.empty, shopScope]
  references := [⟨.call (some (Receiver.chain "model" ["Money"])) "of", 1⟩]

/-- Where the field is found the local obscures the package of its name. -/
theorem receiverType?_item_price :
    let t := ofUnits [moneyFile, priceFile, shopFile]
    t.writtenType? shopFile.context shopScope "item.price" ≠ none ∧
    ∃ s, t.receiverType? shopFile.context shopScope (Receiver.chain "item" ["price"]) =
        some (.known s) ∧
      s.qualifiedName = "model.Money" := by
  intro t
  have hx : shopScope.locals.get? "item" = some "Item" := by decide +kernel
  have hfound : t.fieldOf? (t.typeAlong? (t.writtenType? shopFile.context shopScope "Item") [])
      "price" ≠ none := by
    intro h
    cases h
  have hfields : ∀ front f, front ++ [f] <+: ["price"] →
      t.fieldOf? (t.typeAlong? (t.writtenType? shopFile.context shopScope "Item") front) f = none →
      t.writtenType? shopFile.context shopScope (Name.chain "item" (front ++ [f])) = none := by
    intro front f hfront hnone
    cases front with
    | nil =>
      obtain rfl : f = "price" := by simpa using hfront
      exact absurd hnone hfound
    | cons a front =>
      have hlength := hfront.length_le
      simp at hlength
  have hspelled : t.writtenType? shopFile.context shopScope "item.price" ≠ none := by
    intro h
    cases h
  have hwalk := (receiverType?_chain_iff hx ["price"]).2 hfields ["price"] List.prefix_rfl
  exact ⟨hspelled, _, hwalk, rfl⟩

/-- The walk from `model` finds nothing in a library's type. The chain is then taken for the type
`model.Money`, and the call counts as one of its methods. -/
theorem receiverType?_model_money :
    let t := ofUnits [moneyFile, shopFile]
    shopScope.locals.get? "model" = some "Settings" ∧
    t.typeAlong? (t.writtenType? shopFile.context shopScope "Settings") ["Money"] = none ∧
    (∃ s, t.receiverType? shopFile.context shopScope (Receiver.chain "model" ["Money"]) =
        some (.known s) ∧
      s.qualifiedName = "model.Money") ∧
    shopFile.references.map (t.resolve shopFile) = [some ⟨"model", .source⟩] ∧
    shopFile.references.map ((ofUnits [shopFile]).resolve shopFile) = [none] :=
  ⟨by decide +kernel, rfl, ⟨_, rfl, rfl⟩, by decide +kernel, by decide +kernel⟩

end TypeTable

end PackageModularity
