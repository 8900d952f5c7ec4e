import Rustrak.Grouping.Key
import Rustrak.Grouping.Malformed

/-!
# The order of the siblings

What the grouping key takes from an exception group is the type and value of the exceptions
that survive the filter and are not synthetic.  Siblings with different types and values are
sorted, so their order in the list is lost.

Two places look at the order all the same.  Of siblings with one type and value the first is
kept, with its own flags and its own children; and below an exception that is left alone the
walk follows the first child.  A chain that is not filtered stays in its own order.
-/

namespace Rustrak.Grouping

open Rustrak.Core

variable {values values' : List Value} {level : Nat → Nat} {id : Nat} {e root : Value}
  {found found' : Walk}

/-! ## A tree in another order -/

theorem OwnIds.perm (h : OwnIds values) (hperm : values'.Perm values) : OwnIds values' where
  keyed e he := h.keyed e (hperm.mem_iff.mp he)
  unique a ha b hb := h.unique a (hperm.mem_iff.mp ha) b (hperm.mem_iff.mp hb)
  nodup := hperm.nodup_iff.mpr h.nodup
  other e he := h.other e (hperm.mem_iff.mp he)

theorem TreeOf.perm (h : TreeOf values level) (hperm : values'.Perm values) :
    TreeOf values' level where
  own := h.own.perm hperm
  root := by
    obtain ⟨root, hroot, hid⟩ := h.root
    exact ⟨root, hperm.mem_iff.mpr hroot, hid⟩
  origin := h.origin
  orphan e he := h.orphan e (hperm.mem_iff.mp he)
  parent e he parent hparent := by
    obtain ⟨p, hp, hid⟩ := h.parent e (hperm.mem_iff.mp he) parent hparent
    exact ⟨p, hperm.mem_iff.mpr hp, hid⟩
  below e he := h.below e (hperm.mem_iff.mp he)

theorem TreeOf.levels (h : TreeOf values level) :
    Forest.Levels idOf (childrenOf values) values level where
  unique := h.own.unique
  mem _ _ hchild := (mem_childrenOf.mp hchild).1
  keyed := h.own.keyed
  nodup _ := h.own.nodup_childrenOf
  parent _ _ _ := childrenOf_unique
  step k child hchild l hl := by
    obtain ⟨hmem, hparent⟩ := mem_childrenOf.mp hchild
    exact h.below child hmem l k hl hparent

theorem mem_childrenOf_perm (hperm : values'.Perm values) :
    e ∈ childrenOf values' id ↔ e ∈ childrenOf values id := by
  rw [mem_childrenOf, mem_childrenOf, hperm.mem_iff]

/-! ## What the walks come to in a tree -/

/-- An entry that the walk down the groups comes to from the root. -/
def Reached (values : List Value) (e : Value) : Prop :=
  ∃ root ∈ values, idOf root = some 0 ∧ Under values root e

/-- An exception that is found there. -/
def Top (values : List Value) (e : Value) : Prop := Reached values e ∧ isExceptionGroup e = false

/-- An entry somewhere below another. -/
abbrev Below (values : List Value) : Value → Value → Prop :=
  Forest.Under idOf (fun _ => true) (childrenOf values)

/-- A path down to a leaf. -/
abbrev Path (values : List Value) : Value → List Value → Prop :=
  Forest.Descends idOf (childrenOf values)

theorem Reached.mem (h : Reached values e) : e ∈ values := by
  obtain ⟨root, hroot, -, hunder⟩ := h
  exact hunder.mem hroot

theorem reached_perm (hperm : values'.Perm values) : Reached values' e ↔ Reached values e := by
  have hsub : ∀ {xs ys : List Value}, xs.Perm ys → Reached xs e → Reached ys e := by
    rintro xs ys hxy ⟨root, hroot, hid, hunder⟩
    exact ⟨root, hxy.mem_iff.mp hroot, hid,
      hunder.mono fun _ _ => (mem_childrenOf_perm hxy).mp⟩
  exact ⟨hsub hperm, hsub hperm.symm⟩

theorem top_perm (hperm : values'.Perm values) : Top values' e ↔ Top values e :=
  and_congr_left fun _ => reached_perm hperm

theorem path_perm (hperm : values'.Perm values) {path : List Value} (h : Path values' e path) :
    Path values e path :=
  h.congr fun _ _ => mem_childrenOf_perm hperm

theorem TreeOf.reached_iff (h : TreeOf values level) (hroot : rootOf values = some root) :
    Reached values e ↔ Under values root e := by
  obtain ⟨hmem, hid⟩ := rootOf_mem hroot
  constructor
  · rintro ⟨root', hmem', hid', hunder⟩
    exact h.own.unique root' hmem' root hmem 0 hid' hid ▸ hunder
  · exact fun hunder => ⟨root, hmem, hid, hunder⟩

theorem TreeOf.mem_topLevel (h : TreeOf values level) (hroot : rootOf values = some root)
    (hfound : topLevel values root = some found) : e ∈ found.1 ↔ Top values e := by
  rw [Grouping.mem_topLevel hfound, Top, h.reached_iff hroot]

/-- The groups are not nested too deep for the walk. -/
def Shallow (values : List Value) (level : Nat → Nat) : Prop :=
  ∀ e, Reached values e → isExceptionGroup e = true → ∀ id, idOf e = some id →
    level id < maxExceptionTreeDepth

/-- The types and values a chain shows. -/
def shown (chain : List Value) : List (String × String) :=
  (chain.filter fun e => !isSynthetic e).map typeAndValueOf

/-- Two events that differ in their exceptions only. -/
def SameBut (eventData eventData' : Value) : Prop :=
  ∀ key, key ≠ "exception" → eventData.get key = eventData'.get key

section Key

variable {libs : Libraries} {eventData eventData' : Value}

theorem SameBut.getLogMessage (h : SameBut eventData eventData') :
    getLogMessage eventData = getLogMessage eventData' := by
  simp only [Grouping.getLogMessage, List.findSome?_cons, List.findSome?_nil,
    h "logentry" (by decide), h "message" (by decide)]

theorem SameBut.getTransaction (h : SameBut eventData eventData') :
    getTransaction eventData = getTransaction eventData' := by
  simp only [Grouping.getTransaction, Value.str, h "transaction" (by decide)]

theorem SameBut.fingerprintKey (h : SameBut eventData eventData') (default : String) :
    fingerprintKey eventData default = fingerprintKey eventData' default := by
  simp only [Grouping.fingerprintKey, h "fingerprint" (by decide)]

end Key

/-! ## Where the order cannot show -/

/-- The filter goes through in no order, and the entries that are left all look alike. -/
structure Listed (values : List Value) (level : Nat → Nat) : Prop where
  unfiltered : ¬ Shallow values level ∨ ∀ e, ¬ Top values e
  alike : ∀ a ∈ values, ∀ b ∈ values, isSynthetic a = false → isSynthetic b = false →
    typeAndValueOf a = typeAndValueOf b

/-- One type and value is found: every path below one of the exceptions shows the same. -/
structure OneKind (values : List Value) (level : Nat → Nat) : Prop where
  kind : ∀ a b, Top values a → Top values b → typeAndValueOf a = typeAndValueOf b
  shallow : ∀ a, Top values a → ∀ e, Below values a e → ∀ id l, idOf a = some id →
    idOf e = some l → level l < level id + maxExceptionTreeDepth
  paths : ∀ a b, Top values a → Top values b → ∀ path path', Path values a path →
    Path values b path' → shown path = shown path'

/-- Several are found: those that look alike are all synthetic or none is, and what is kept
shows something, unless no entry does. -/
structure ManyKinds (values : List Value) : Prop where
  kinds : ∃ a b, Top values a ∧ Top values b ∧ typeAndValueOf a ≠ typeAndValueOf b
  agree : ∀ a b, Top values a → Top values b → typeAndValueOf a = typeAndValueOf b →
    isSynthetic a = isSynthetic b
  shows : (∃ e ∈ values, (idOf e = some 0 ∨ Top values e) ∧ isSynthetic e = false) ∨
    ∀ e ∈ values, isSynthetic e = true

/-- Something is found, and nothing depends on what is come to first. -/
structure Steady (values : List Value) (level : Nat → Nat) : Prop where
  shallow : Shallow values level
  finds : ∃ e, Top values e
  kinds : OneKind values level ∨ ManyKinds values

theorem Shallow.perm (h : Shallow values level) (hperm : values'.Perm values) :
    Shallow values' level := fun e he => h e ((reached_perm hperm).mp he)

theorem Listed.perm (h : Listed values level) (hperm : values'.Perm values) :
    Listed values' level where
  unfiltered := h.unfiltered.imp (fun hnot hshallow => hnot (hshallow.perm hperm.symm))
    fun hnone e he => hnone e ((top_perm hperm).mp he)
  alike a ha b hb := h.alike a (hperm.mem_iff.mp ha) b (hperm.mem_iff.mp hb)

theorem OneKind.perm (h : OneKind values level) (hperm : values'.Perm values) :
    OneKind values' level where
  kind a b ha hb := h.kind a b ((top_perm hperm).mp ha) ((top_perm hperm).mp hb)
  shallow a ha e he := h.shallow a ((top_perm hperm).mp ha) e
    (he.mono fun _ _ => (mem_childrenOf_perm hperm).mp)
  paths a b ha hb path path' hpath hpath' := h.paths a b ((top_perm hperm).mp ha)
    ((top_perm hperm).mp hb) path path' (path_perm hperm hpath) (path_perm hperm hpath')

theorem ManyKinds.perm (h : ManyKinds values) (hperm : values'.Perm values) :
    ManyKinds values' where
  kinds := by
    obtain ⟨a, b, ha, hb, hne⟩ := h.kinds
    exact ⟨a, b, (top_perm hperm).mpr ha, (top_perm hperm).mpr hb, hne⟩
  agree a b ha hb := h.agree a b ((top_perm hperm).mp ha) ((top_perm hperm).mp hb)
  shows := by
    refine h.shows.imp ?_ fun hall e he => hall e (hperm.mem_iff.mp he)
    rintro ⟨e, he, hkept, hshown⟩
    exact ⟨e, hperm.mem_iff.mpr he, hkept.imp_right (top_perm hperm).mpr, hshown⟩

theorem Steady.perm (h : Steady values level) (hperm : values'.Perm values) :
    Steady values' level where
  shallow := h.shallow.perm hperm
  finds := by
    obtain ⟨e, he⟩ := h.finds
    exact ⟨e, (top_perm hperm).mpr he⟩
  kinds := h.kinds.imp (fun hone => hone.perm hperm) fun hmany => hmany.perm hperm

/-! ## What survives in each case -/

section Order

variable {libs : Libraries} {eventData eventData' : Value}

end Order

/-! ## Twins -/

end Rustrak.Grouping
