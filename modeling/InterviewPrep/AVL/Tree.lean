/-
  `AVLTree` (16_advanced_trees/questions.py).

  An insertion or a deletion changes the depth of a subtree by one at most, so one child of a node
  is deeper than the other by two at most, and one rotation or two restore the balance.  After an
  insertion the two depths differ only when the key went to the deeper side (`Leans`).
-/
import Mathlib.Data.Finset.Sort
import Mathlib.Data.Int.ConditionallyCompleteOrder
import Mathlib.Data.List.Induction
import Mathlib.Order.ConditionallyCompleteLattice.Basic

namespace InterviewPrep.AVL

/-! ## The tree -/

/-- `Optional[AVLNode]` -/
inductive AVLNode where
  | nil
  | node (key : Int) (left right : AVLNode) (height : Int)
  deriving DecidableEq

open AVLNode

def height : AVLNode → Int
  | nil => 0
  | node _ _ _ h => h

def balanceFactor : AVLNode → Int
  | nil => 0
  | node _ l r _ => height l - height r

/-- The key of a child; a missing child has none. -/
def AVLNode.key? : AVLNode → Option Int
  | nil => none
  | node k _ _ _ => some k

/-- A node after `_update_height`. -/
def updateHeight (k : Int) (l r : AVLNode) : AVLNode := node k l r (1 + max (height l) (height r))

/-- `none` when a missing child is dereferenced. -/
def rotateRight : AVLNode → Option AVLNode
  | node y (node x t₁ t₂ _) t₃ _ => some (updateHeight x t₁ (updateHeight y t₂ t₃))
  | _ => none

def rotateLeft : AVLNode → Option AVLNode
  | node x t₁ (node y t₂ t₃ _) _ => some (updateHeight y (updateHeight x t₁ t₂) t₃)
  | _ => none

/-- `a and b`, where `b` may raise. -/
def both (a : Prop) [Decidable a] (b : Option Bool) : Option Bool := if a then b else some false

/-- The cases of `_insert`, after the height. -/
def rebalanceInserted (key k : Int) (l r : AVLNode) : Option AVLNode := do
  let node := updateHeight k l r
  let balance := balanceFactor node
  if ← both (balance > 1) (l.key?.map (key < ·)) then rotateRight node
  else if ← both (balance < -1) (r.key?.map (key > ·)) then rotateLeft node
  else if ← both (balance > 1) (l.key?.map (key > ·)) then
    rotateRight (.node k (← rotateLeft l) r (height node))
  else if ← both (balance < -1) (r.key?.map (key < ·)) then
    rotateLeft (.node k l (← rotateRight r) (height node))
  else return node

/-- `_insert` -/
def insert (key : Int) : AVLNode → Option AVLNode
  | nil => some (node key nil nil 1)
  | node k l r h =>
    if key < k then do rebalanceInserted key k (← insert key l) r
    else if key > k then do rebalanceInserted key k l (← insert key r)
    else some (node k l r h)

def minValueNode : AVLNode → Option Int
  | nil => none
  | node k l _ _ => if l = nil then some k else minValueNode l

/-- The cases of `_delete`, after the height. -/
def rebalanceDeleted (k : Int) (l r : AVLNode) : Option AVLNode := do
  let node := updateHeight k l r
  let balance := balanceFactor node
  if balance > 1 ∧ balanceFactor l ≥ 0 then rotateRight node
  else if balance > 1 ∧ balanceFactor l < 0 then
    rotateRight (.node k (← rotateLeft l) r (height node))
  else if balance < -1 ∧ balanceFactor r ≤ 0 then rotateLeft node
  else if balance < -1 ∧ balanceFactor r > 0 then
    rotateLeft (.node k l (← rotateRight r) (height node))
  else return node

/-- `_delete` -/
def delete : AVLNode → Int → Option AVLNode
  | nil, _ => some nil
  | node k l r _, key =>
    if key < k then do rebalanceDeleted k (← delete l key) r
    else if key > k then do rebalanceDeleted k l (← delete r key)
    else if l = nil then some r
    else if r = nil then some l
    else do
      let successor ← minValueNode r
      rebalanceDeleted successor l (← delete r successor)

def search (key : Int) : AVLNode → Bool
  | nil => false
  | node k l r _ => if key = k then true else if key < k then search key l else search key r

/-- `_inorder`, which appends to `result`. -/
def inorderInto : AVLNode → List Int → List Int
  | nil, result => result
  | node k l r _, result => inorderInto r (inorderInto l result ++ [k])

def inorder (t : AVLNode) : List Int := inorderInto t []

/-! ## Balance and order -/

variable {t l r : AVLNode} {k key h : Int}

def keys : AVLNode → List Int
  | nil => []
  | node k l r _ => keys l ++ k :: keys r

/-- The true height. -/
def depth : AVLNode → Nat
  | nil => 0
  | node _ l r _ => 1 + max (depth l) (depth r)

/-- Every stored height is the true one, and every balance factor is -1, 0 or 1. -/
def Balanced : AVLNode → Prop
  | nil => True
  | node k l r h => Balanced l ∧ Balanced r ∧ h = depth (node k l r h) ∧
      -1 ≤ balanceFactor (node k l r h) ∧ balanceFactor (node k l r h) ≤ 1

/-- A binary search tree without duplicates. -/
def Ordered : AVLNode → Prop
  | nil => True
  | node k l r _ => Ordered l ∧ Ordered r ∧ (∀ x ∈ keys l, x < k) ∧ ∀ x ∈ keys r, k < x

theorem inorderInto_eq (t : AVLNode) (result : List Int) :
    inorderInto t result = result ++ keys t := by
  induction t generalizing result with
  | nil => exact (List.append_nil _).symm
  | node k l r h ihl ihr =>
    simp only [inorderInto, keys, ihl, ihr, List.append_assoc, List.cons_append, List.nil_append]

theorem ordered_iff : Ordered t ↔ (keys t).Pairwise (· < ·) := by
  induction t with
  | nil => exact iff_of_true trivial .nil
  | node k l r h ihl ihr =>
    rw [keys, List.pairwise_append, List.pairwise_cons, ← ihl, ← ihr]
    constructor
    · intro ⟨hl, hr, hlt, hgt⟩
      refine ⟨hl, ⟨hgt, hr⟩, fun x hx y hy => ?_⟩
      obtain rfl | hy := List.mem_cons.mp hy
      · exact hlt x hx
      · exact (hlt x hx).trans (hgt y hy)
    · intro ⟨hl, ⟨hgt, hr⟩, hlt⟩
      exact ⟨hl, hr, fun x hx => hlt x hx k List.mem_cons_self, hgt⟩

theorem Balanced.height_eq (ht : Balanced t) : height t = depth t := by
  cases t with
  | nil => rfl
  | node => exact ht.2.2.1

theorem depth_updateHeight : depth (updateHeight k l r) = 1 + max (depth l) (depth r) := rfl

theorem keys_updateHeight : keys (updateHeight k l r) = keys l ++ k :: keys r := rfl

theorem Balanced.updateHeight (hl : Balanced l) (hr : Balanced r)
    (hdeep : depth l ≤ depth r + 1 ∧ depth r ≤ depth l + 1) : Balanced (updateHeight k l r) := by
  have hheight := hl.height_eq
  have hheight' := hr.height_eq
  refine ⟨hl, hr, ?_, ?_, ?_⟩ <;> simp only [depth, balanceFactor] <;> omega

theorem Balanced.factor (hl : Balanced l) (hr : Balanced r) :
    balanceFactor (AVL.updateHeight k l r) = depth l - depth r :=
  congrArg₂ (· - ·) hl.height_eq hr.height_eq

theorem Balanced.children (ht : Balanced (node k l r h)) : Balanced l ∧ Balanced r ∧
    balanceFactor (node k l r h) = depth l - depth r ∧
    depth l ≤ depth r + 1 ∧ depth r ≤ depth l + 1 := by
  obtain ⟨hl, hr, -, hlo, hhi⟩ := ht
  have hfactor : balanceFactor (node k l r h) = depth l - depth r := hl.factor hr (k := k)
  exact ⟨hl, hr, hfactor, by omega, by omega⟩

/-! ## Rotations -/

theorem exists_node (ht : 0 < depth t) : ∃ k l r h, t = node k l r h := by
  cases t with
  | nil => exact absurd ht (Nat.lt_irrefl 0)
  | node k l r h => exact ⟨k, l, r, h, rfl⟩

/-- `t` holds the keys of the node in order, is balanced, and as deep as expected. -/
structure Rotated (k : Int) (l r : AVLNode) (deep : Nat) (t : AVLNode) : Prop where
  balanced : Balanced t
  keys : keys t = keys l ++ k :: keys r
  depth : depth t = deep

theorem rotateRight_spec (hl : Balanced l) (hr : Balanced r) (hdeep : depth l = depth r + 2)
    (hleft : 0 ≤ balanceFactor l) : ∃ t, rotateRight (updateHeight k l r) = some t ∧
      Rotated k l r (depth r + if balanceFactor l = 0 then 3 else 2) t := by
  obtain ⟨kl, l1, l2, hl', rfl⟩ := exists_node (show 0 < depth l by omega)
  obtain ⟨hl1, hl2, hfactor, hle, hge⟩ := hl.children
  rw [hfactor] at hleft ⊢
  simp only [depth] at hdeep
  refine ⟨_, rfl, hl1.updateHeight (hl2.updateHeight hr (by omega)) ?_, ?_, ?_⟩
  · rw [depth_updateHeight]
    omega
  · simp only [keys_updateHeight, AVL.keys, List.append_assoc, List.cons_append]
  · rw [depth_updateHeight, depth_updateHeight]
    split <;> omega

theorem rotateLeft_spec (hl : Balanced l) (hr : Balanced r) (hdeep : depth r = depth l + 2)
    (hright : balanceFactor r ≤ 0) : ∃ t, rotateLeft (updateHeight k l r) = some t ∧
      Rotated k l r (depth l + if balanceFactor r = 0 then 3 else 2) t := by
  obtain ⟨kr, r1, r2, hr', rfl⟩ := exists_node (show 0 < depth r by omega)
  obtain ⟨hr1, hr2, hfactor, hle, hge⟩ := hr.children
  rw [hfactor] at hright ⊢
  simp only [depth] at hdeep
  refine ⟨_, rfl, (hl.updateHeight hr1 (by omega)).updateHeight hr2 ?_, ?_, ?_⟩
  · rw [depth_updateHeight]
    omega
  · simp only [keys_updateHeight, AVL.keys, List.append_assoc, List.cons_append]
  · rw [depth_updateHeight, depth_updateHeight]
    split <;> omega

theorem rotateLeftRight_spec (hl : Balanced l) (hr : Balanced r) (hdeep : depth l = depth r + 2)
    (hleft : balanceFactor l < 0) : ∃ t,
      (do rotateRight (node k (← rotateLeft l) r (height (updateHeight k l r)))) = some t ∧
      Rotated k l r (depth r + 2) t := by
  obtain ⟨kl, l1, l2, hl', rfl⟩ := exists_node (show 0 < depth l by omega)
  obtain ⟨hl1, hl2, hfactor, hle, hge⟩ := hl.children
  obtain ⟨km, m1, m2, hm', rfl⟩ := exists_node (show 0 < depth l2 by omega)
  obtain ⟨hm1, hm2, -, hle', hge'⟩ := hl2.children
  simp only [depth] at hdeep hfactor hge hle
  refine ⟨_, rfl, (hl1.updateHeight hm1 (by omega)).updateHeight
    (hm2.updateHeight hr (by omega)) ?_, ?_, ?_⟩
  · rw [depth_updateHeight, depth_updateHeight]
    omega
  · simp only [keys_updateHeight, AVL.keys, List.append_assoc, List.cons_append]
  · rw [depth_updateHeight, depth_updateHeight, depth_updateHeight]
    omega

theorem rotateRightLeft_spec (hl : Balanced l) (hr : Balanced r) (hdeep : depth r = depth l + 2)
    (hright : 0 < balanceFactor r) : ∃ t,
      (do rotateLeft (node k l (← rotateRight r) (height (updateHeight k l r)))) = some t ∧
      Rotated k l r (depth l + 2) t := by
  obtain ⟨kr, r1, r2, hr', rfl⟩ := exists_node (show 0 < depth r by omega)
  obtain ⟨hr1, hr2, hfactor, hle, hge⟩ := hr.children
  obtain ⟨km, m1, m2, hm', rfl⟩ := exists_node (show 0 < depth r1 by omega)
  obtain ⟨hm1, hm2, -, hle', hge'⟩ := hr1.children
  simp only [depth] at hdeep hfactor hge hle
  refine ⟨_, rfl, (hl.updateHeight hm1 (by omega)).updateHeight
    (hm2.updateHeight hr2 (by omega)) ?_, ?_, ?_⟩
  · rw [depth_updateHeight, depth_updateHeight]
    omega
  · simp only [keys_updateHeight, AVL.keys, List.append_assoc, List.cons_append]
  · rw [depth_updateHeight, depth_updateHeight, depth_updateHeight]
    omega

theorem Ordered.rebuild (hl : Ordered l) (hr : Ordered r) (hlt : ∀ x ∈ keys l, x < k)
    (hgt : ∀ x ∈ keys r, k < x) (hkeys : keys t = keys l ++ k :: keys r) : Ordered t := by
  rw [ordered_iff, hkeys]
  exact ordered_iff.mp (show Ordered (node k l r 0) from ⟨hl, hr, hlt, hgt⟩)

/-! ## Insertion -/

/-- The side that the key went to is the deeper one. -/
def Leans (key : Int) : AVLNode → Prop
  | nil => False
  | node k l r _ => key < k ∧ depth l = depth r + 1 ∨ k < key ∧ depth r = depth l + 1

theorem rebalanceInserted_level (hl : Balanced l) (hr : Balanced r)
    (hdeep : depth l ≤ depth r + 1 ∧ depth r ≤ depth l + 1) :
    rebalanceInserted key k l r = some (updateHeight k l r) := by
  have hfactor := hl.factor hr (k := k)
  have hleft : ¬ balanceFactor (updateHeight k l r) > 1 := by omega
  have hright : ¬ balanceFactor (updateHeight k l r) < -1 := by omega
  simp [rebalanceInserted, both, hleft, hright]

theorem rebalanceInserted_left (hl : Balanced l) (hr : Balanced r) (hdeep : depth l = depth r + 2)
    (hkey : Leans key l) :
    ∃ t, rebalanceInserted key k l r = some t ∧ Rotated k l r (depth r + 2) t := by
  have hfactor := hl.factor hr (k := k)
  have hleft : balanceFactor (updateHeight k l r) > 1 := by omega
  have hright : ¬ balanceFactor (updateHeight k l r) < -1 := by omega
  cases l with
  | nil => exact hkey.elim
  | node kl l1 l2 hl' =>
  have hfactorl := hl.children.2.2.1
  obtain ⟨hlt, hinner⟩ | ⟨hgt, hinner⟩ := hkey
  · obtain ⟨t, ht, hrotated⟩ := rotateRight_spec (k := k) hl hr hdeep (by omega)
    rw [if_neg (by omega)] at hrotated
    refine ⟨t, ?_, hrotated⟩
    simp [rebalanceInserted, both, hleft, key?, hlt, ht]
  · obtain ⟨t, ht, hrotated⟩ := rotateLeftRight_spec (k := k) hl hr hdeep (by omega)
    refine ⟨t, ?_, hrotated⟩
    rw [← ht]
    simp [rebalanceInserted, both, hleft, hright, key?, hgt, hgt.le]

theorem rebalanceInserted_right (hl : Balanced l) (hr : Balanced r) (hdeep : depth r = depth l + 2)
    (hkey : Leans key r) :
    ∃ t, rebalanceInserted key k l r = some t ∧ Rotated k l r (depth l + 2) t := by
  have hfactor := hl.factor hr (k := k)
  have hleft : ¬ balanceFactor (updateHeight k l r) > 1 := by omega
  have hright : balanceFactor (updateHeight k l r) < -1 := by omega
  cases r with
  | nil => exact hkey.elim
  | node kr r1 r2 hr' =>
  have hfactorr := hr.children.2.2.1
  obtain ⟨hlt, hinner⟩ | ⟨hgt, hinner⟩ := hkey
  · obtain ⟨t, ht, hrotated⟩ := rotateRightLeft_spec (k := k) hl hr hdeep (by omega)
    refine ⟨t, ?_, hrotated⟩
    rw [← ht]
    simp [rebalanceInserted, both, hleft, hright, key?, hlt, hlt.le]
  · obtain ⟨t, ht, hrotated⟩ := rotateLeft_spec (k := k) hl hr hdeep (by omega)
    rw [if_neg (by omega)] at hrotated
    refine ⟨t, ?_, hrotated⟩
    simp [rebalanceInserted, both, hleft, hright, key?, hgt, ht]

/-- A tree as deep as before, or one deeper on the side of the key. -/
def Grown (key : Int) (t t' : AVLNode) : Prop :=
  depth t' = depth t ∨ depth t' = depth t + 1 ∧ (t = nil ∨ Leans key t')

theorem Grown.leans {t' : AVLNode} (h : Grown key t t') (hgrew : depth t < depth t')
    (hdeep : 1 < depth t') : Leans key t' := by
  obtain hsame | ⟨hone, rfl | hleans⟩ := h
  · omega
  · simp only [depth] at hone
    omega
  · exact hleans

/-- What an insertion makes of a subtree. -/
structure Inserted (key : Int) (t t' : AVLNode) : Prop where
  balanced : Balanced t'
  ordered : Ordered t'
  keys : ∀ x, x ∈ keys t' ↔ x = key ∨ x ∈ keys t
  grown : Grown key t t'

theorem Inserted.rebuild {l' r' : AVLNode} (ht : Balanced (node k l r h))
    (hl : Balanced l') (hr : Balanced r') (hordl : Ordered l') (hordr : Ordered r')
    (hlt : ∀ x ∈ AVL.keys l', x < k) (hgt : ∀ x ∈ AVL.keys r', k < x)
    (hmem : ∀ x, x ∈ AVL.keys l' ++ k :: AVL.keys r' ↔ x = key ∨ x ∈ AVL.keys (node k l r h))
    (hgrown : key < k ∧ Grown key l l' ∧ depth r' = depth r ∨
      k < key ∧ Grown key r r' ∧ depth l' = depth l) :
    ∃ t', rebalanceInserted key k l' r' = some t' ∧ Inserted key (node k l r h) t' := by
  obtain ⟨-, -, -, hle, hge⟩ := ht.children
  by_cases hlevel : depth l' ≤ depth r' + 1 ∧ depth r' ≤ depth l' + 1
  · refine ⟨_, rebalanceInserted_level hl hr hlevel, hl.updateHeight hr hlevel,
      ⟨hordl, hordr, hlt, hgt⟩, hmem, ?_⟩
    simp only [Grown, Leans, updateHeight, depth] at hgrown ⊢
    omega
  obtain ⟨t, ht, hrotated⟩ : ∃ t, rebalanceInserted key k l' r' = some t ∧
      Rotated k l' r' (depth (node k l r h)) t := by
    rw [depth]
    obtain ⟨-, hside, hother⟩ | ⟨-, hside, hother⟩ := hgrown
    · have hdepth := hside.imp_right And.left
      rw [show 1 + max (depth l) (depth r) = depth r' + 2 by omega]
      exact rebalanceInserted_left hl hr (by omega) (hside.leans (by omega) (by omega))
    · have hdepth := hside.imp_right And.left
      rw [show 1 + max (depth l) (depth r) = depth l' + 2 by omega]
      exact rebalanceInserted_right hl hr (by omega) (hside.leans (by omega) (by omega))
  exact ⟨t, ht, hrotated.balanced, .rebuild hordl hordr hlt hgt hrotated.keys,
    hrotated.keys ▸ hmem, .inl hrotated.depth⟩

theorem insert_spec (key : Int) (ht : Balanced t) (hordered : Ordered t) :
    ∃ t', insert key t = some t' ∧ Inserted key t t' := by
  induction t with
  | nil =>
    refine ⟨_, rfl, ?_, ?_, fun x => ?_, .inr ⟨rfl, .inl rfl⟩⟩
    · simp [Balanced, depth, balanceFactor, height]
    · simp [Ordered, keys]
    · simp [keys]
  | node k l r h ihl ihr =>
    obtain ⟨hl, hr, -, hle, hge⟩ := ht.children
    obtain ⟨hordl, hordr, hlt, hgt⟩ := hordered
    rw [insert]
    split
    next hkey =>
      obtain ⟨l', hinsert, hl'⟩ := ihl hl hordl
      rw [hinsert]
      refine Inserted.rebuild ht hl'.balanced hr hl'.ordered hordr
        (fun x hx => ((hl'.keys x).mp hx).elim (· ▸ hkey) (hlt x)) hgt (fun x => ?_)
        (.inl ⟨hkey, hl'.grown, rfl⟩)
      rw [keys, List.mem_append, hl'.keys, List.mem_append, or_assoc]
    next =>
    split
    next hkey =>
      obtain ⟨r', hinsert, hr'⟩ := ihr hr hordr
      rw [hinsert]
      refine Inserted.rebuild ht hl hr'.balanced hordl hr'.ordered hlt
        (fun x hx => ((hr'.keys x).mp hx).elim (· ▸ hkey) (hgt x)) (fun x => ?_)
        (.inr ⟨hkey, hr'.grown, rfl⟩)
      rw [keys, List.mem_append, List.mem_cons, hr'.keys, List.mem_append, List.mem_cons]
      tauto
    next =>
      have hkey : key = k := by omega
      refine ⟨_, rfl, ht, ⟨hordl, hordr, hlt, hgt⟩, fun x => ⟨.inr, ?_⟩, .inl rfl⟩
      rintro (rfl | hx)
      · exact hkey ▸ List.mem_append_right _ List.mem_cons_self
      · exact hx

/-! ## Deletion -/

theorem minValueNode_spec (ht : t ≠ nil) (hordered : Ordered t) :
    ∃ s, minValueNode t = some s ∧ s ∈ keys t ∧ ∀ x ∈ keys t, s ≤ x := by
  induction t with
  | nil => exact absurd rfl ht
  | node k l r h ihl _ =>
    obtain ⟨hordl, -, hlt, hgt⟩ := hordered
    rw [minValueNode, keys]
    split
    next hnil =>
      subst hnil
      refine ⟨k, rfl, List.mem_cons_self, fun x hx => ?_⟩
      obtain rfl | hx := List.mem_cons.mp hx
      · exact le_rfl
      · exact (hgt x hx).le
    next hl =>
    obtain ⟨s, hs, hmem, hle⟩ := ihl hl hordl
    refine ⟨s, hs, List.mem_append_left _ hmem, fun x hx => ?_⟩
    obtain hx | hx := List.mem_append.mp hx
    · exact hle x hx
    · obtain rfl | hx := List.mem_cons.mp hx
      · exact (hlt s hmem).le
      · exact ((hlt s hmem).trans (hgt x hx)).le

theorem rebalanceDeleted_spec (hl : Balanced l) (hr : Balanced r) (hle : depth l ≤ depth r + 2)
    (hge : depth r ≤ depth l + 2) :
    ∃ t deep, rebalanceDeleted k l r = some t ∧ Rotated k l r deep t ∧
      max (depth l) (depth r) ≤ deep ∧ deep ≤ max (depth l) (depth r) + 1 ∧
      (depth l ≤ depth r + 1 ∧ depth r ≤ depth l + 1 → deep = max (depth l) (depth r) + 1) := by
  have hfactor := hl.factor hr (k := k)
  by_cases hleft : balanceFactor (updateHeight k l r) > 1
  · by_cases hin : 0 ≤ balanceFactor l
    · obtain ⟨t, ht, hrotated⟩ := rotateRight_spec (k := k) hl hr (by omega) hin
      refine ⟨t, _, ?_, hrotated, ?_⟩
      · simp [rebalanceDeleted, hleft, hin, ht]
      · split <;> omega
    · obtain ⟨t, ht, hrotated⟩ := rotateLeftRight_spec (k := k) hl hr (by omega) (by omega)
      refine ⟨t, _, ?_, hrotated, by omega⟩
      rw [← ht]
      simp [rebalanceDeleted, hleft, hin, not_le.mp hin]
  by_cases hright : balanceFactor (updateHeight k l r) < -1
  · by_cases hin : balanceFactor r ≤ 0
    · obtain ⟨t, ht, hrotated⟩ := rotateLeft_spec (k := k) hl hr (by omega) hin
      refine ⟨t, _, ?_, hrotated, ?_⟩
      · simp [rebalanceDeleted, hleft, hright, hin, ht]
      · split <;> omega
    · obtain ⟨t, ht, hrotated⟩ := rotateRightLeft_spec (k := k) hl hr (by omega) (by omega)
      refine ⟨t, _, ?_, hrotated, by omega⟩
      rw [← ht]
      simp [rebalanceDeleted, hleft, hright, hin, not_le.mp hin]
  · refine ⟨_, _, ?_, ⟨hl.updateHeight hr (by omega), rfl, depth_updateHeight⟩, by omega⟩
    simp [rebalanceDeleted, hleft, hright]

/-- What a deletion makes of a subtree. -/
structure Deleted (key : Int) (t t' : AVLNode) : Prop where
  balanced : Balanced t'
  ordered : Ordered t'
  keys : ∀ x, x ∈ keys t' ↔ x ∈ keys t ∧ x ≠ key
  le : depth t' ≤ depth t
  ge : depth t ≤ depth t' + 1

theorem Deleted.rebuild {l' r' : AVLNode} {s : Int} (ht : Balanced (node k l r h))
    (hl : Balanced l') (hr : Balanced r') (hordl : Ordered l') (hordr : Ordered r')
    (hlt : ∀ x ∈ AVL.keys l', x < s) (hgt : ∀ x ∈ AVL.keys r', s < x)
    (hmem : ∀ x, (x ∈ AVL.keys l' ∨ x = s ∨ x ∈ AVL.keys r') ↔
      (x ∈ AVL.keys l ∨ x = k ∨ x ∈ AVL.keys r) ∧ x ≠ key)
    (hdepth : depth l' ≤ depth l ∧ depth l ≤ depth l' + 1 ∧ depth r' = depth r ∨
      depth r' ≤ depth r ∧ depth r ≤ depth r' + 1 ∧ depth l' = depth l) :
    ∃ t', rebalanceDeleted s l' r' = some t' ∧ Deleted key (node k l r h) t' := by
  obtain ⟨-, -, -, hle, hge⟩ := ht.children
  obtain ⟨t', deep, hrun, hrotated, hlo, hhi, hlevel⟩ :=
    rebalanceDeleted_spec (k := s) hl hr (by omega) (by omega)
  have hdeep := hrotated.depth
  refine ⟨t', hrun, hrotated.balanced, .rebuild hordl hordr hlt hgt hrotated.keys, fun x => ?_,
    ?_, ?_⟩
  · simp only [hrotated.keys, AVL.keys, List.mem_append, List.mem_cons]
    exact hmem x
  · simp only [depth]
    omega
  · simp only [depth]
    omega

theorem delete_spec (key : Int) (ht : Balanced t) (hordered : Ordered t) :
    ∃ t', delete t key = some t' ∧ Deleted key t t' := by
  induction t generalizing key with
  | nil => exact ⟨_, rfl, ht, hordered, by simp [keys], Nat.le_refl _, Nat.le_succ _⟩
  | node k l r h ihl ihr =>
    obtain ⟨hl, hr, -, hle, hge⟩ := ht.children
    obtain ⟨hordl, hordr, hlt, hgt⟩ := hordered
    rw [delete]
    split
    next hkey =>
      obtain ⟨l', hdelete, hl'⟩ := ihl key hl hordl
      rw [hdelete]
      refine Deleted.rebuild ht hl'.balanced hr hl'.ordered hordr
        (fun x hx => hlt x ((hl'.keys x).mp hx).1) hgt (fun x => ?_) (.inl ⟨hl'.le, hl'.ge, rfl⟩)
      rw [hl'.keys x]
      have hother : x ∈ keys r → x ≠ key := fun hx => (hkey.trans (hgt x hx)).ne'
      grind
    next =>
    split
    next hkey =>
      obtain ⟨r', hdelete, hr'⟩ := ihr key hr hordr
      rw [hdelete]
      refine Deleted.rebuild ht hl hr'.balanced hordl hr'.ordered hlt
        (fun x hx => hgt x ((hr'.keys x).mp hx).1) (fun x => ?_) (.inr ⟨hr'.le, hr'.ge, rfl⟩)
      rw [hr'.keys x]
      have hother : x ∈ keys l → x ≠ key := fun hx => ((hlt x hx).trans hkey).ne
      grind
    next =>
    obtain rfl : key = k := by omega
    have hlne : ∀ x ∈ keys l, x ≠ key := fun x hx => (hlt x hx).ne
    have hrne : ∀ x ∈ keys r, x ≠ key := fun x hx => (hgt x hx).ne'
    split
    next hnil =>
      subst hnil
      refine ⟨r, rfl, hr, hordr, fun x => ?_, ?_, ?_⟩ <;> simp only [keys, depth] at *
      · grind
      · omega
      · omega
    next =>
    split
    next hnil =>
      subst hnil
      refine ⟨l, rfl, hl, hordl, fun x => ?_, ?_, ?_⟩ <;> simp only [keys, depth] at *
      · grind
      · omega
      · omega
    next hnil =>
    obtain ⟨s, hs, hmem, hmin⟩ := minValueNode_spec hnil hordr
    obtain ⟨r', hdelete, hr'⟩ := ihr s hr hordr
    rw [hs]
    show ∃ t', (delete r s >>= fun r' => rebalanceDeleted s l r') = some t' ∧ _
    rw [hdelete]
    refine Deleted.rebuild ht hl hr'.balanced hordl hr'.ordered
      (fun x hx => (hlt x hx).trans (hgt s hmem)) (fun x hx => ?_) (fun x => ?_)
      (.inr ⟨hr'.le, hr'.ge, rfl⟩)
    · obtain ⟨hx, hne⟩ := (hr'.keys x).mp hx
      exact lt_of_le_of_ne (hmin x hx) (Ne.symm hne)
    · rw [hr'.keys x]
      grind

/-! ## Runs -/

theorem search_iff (ht : Ordered t) : search key t = true ↔ key ∈ keys t := by
  induction t with
  | nil => simp [search, keys]
  | node k l r h ihl ihr =>
    obtain ⟨hordl, hordr, hlt, hgt⟩ := ht
    have hl : key ∈ keys l → key < k := hlt key
    have hr : key ∈ keys r → k < key := hgt key
    rw [search, keys, List.mem_append, List.mem_cons, ← ihl hordl, ← ihr hordr]
    rw [← ihl hordl] at hl
    rw [← ihr hordr] at hr
    grind

inductive Call where
  | insert (key : Int)
  | delete (key : Int)

def Call.apply (t : AVLNode) : Call → Option AVLNode
  | .insert key => AVL.insert key t
  | .delete key => AVL.delete t key

/-- The root after the calls on an empty tree. -/
def run (calls : List Call) : Option AVLNode := calls.foldlM Call.apply nil

/-- The keys inserted and not later deleted. -/
def keysAfter (calls : List Call) : Finset Int :=
  calls.foldl (fun ks call => match call with
    | .insert key => Insert.insert key ks
    | .delete key => ks.erase key) ∅

theorem run_keys (calls : List Call) : ∃ t, run calls = some t ∧ Balanced t ∧ Ordered t ∧
    ∀ x, x ∈ keys t ↔ x ∈ keysAfter calls := by
  induction calls using List.reverseRecOn with
  | nil => exact ⟨nil, rfl, trivial, trivial, by simp [keys, keysAfter]⟩
  | append_singleton calls call ih =>
    obtain ⟨t, hrun, ht, hordered, hkeys⟩ := ih
    rw [run] at hrun
    simp only [run, keysAfter, List.foldlM_append, List.foldl_append, hrun] at hkeys ⊢
    cases call with
    | insert key =>
      obtain ⟨t', hinsert, ht'⟩ := insert_spec key ht hordered
      refine ⟨t', by simp [Call.apply, hinsert], ht'.balanced, ht'.ordered, fun x => ?_⟩
      rw [ht'.keys x, hkeys x]
      exact Finset.mem_insert.symm
    | delete key =>
      obtain ⟨t', hdelete, ht'⟩ := delete_spec key ht hordered
      refine ⟨t', by simp [Call.apply, hdelete], ht'.balanced, ht'.ordered, fun x => ?_⟩
      rw [ht'.keys x, hkeys x, and_comm]
      exact Finset.mem_erase.symm

/-- After every sequence of calls the tree is an AVL tree of the keys, and none of them raised. -/
theorem run_spec (calls : List Call) : ∃ t, run calls = some t ∧ Ordered t ∧ Balanced t ∧
    inorder t = (keysAfter calls).sort (· ≤ ·) ∧
    ∀ key, search key t = true ↔ key ∈ keysAfter calls := by
  obtain ⟨t, hrun, ht, hordered, hkeys⟩ := run_keys calls
  have hsorted := ordered_iff.mp hordered
  refine ⟨t, hrun, hordered, ht, ?_, fun key => (search_iff hordered).trans (hkeys key)⟩
  rw [inorder, inorderInto_eq, List.nil_append,
    ← Finset.ext fun x => List.mem_toFinset.trans (hkeys x)]
  exact ((List.toFinset_sort (· ≤ ·) (hsorted.imp ne_of_lt)).mpr (hsorted.imp le_of_lt)).symm

end InterviewPrep.AVL
