import Mathlib.Tactic

/-!
# Keys woven between subtrees

A node of a multiway search tree has its keys between its subtrees. A focus picks one subtree and
has the keys and subtrees on either side of it, the nearest first, so that the two always match in
number. Replacing the subtree in focus by one that holds a key more, or a key less, keeps the whole
in order exactly when the subtree fits between its neighbours.
-/

namespace BackendCpp.Library

variable {κ α β : Type*}

/-- The texts of the subtrees with the keys between them; a node without subtrees is read as its
keys. -/
def weave : List κ → List (List κ) → List κ
  | keys, [] => keys
  | [], text :: _ => text
  | key :: keys, text :: texts => text ++ key :: weave keys texts

/-- Keys without texts are what is left. -/
@[simp] theorem weave_nil (keys : List κ) : weave keys [] = keys := by
  cases keys <;> rfl

/-- One text stands alone. -/
@[simp] theorem weave_single (text : List κ) (texts : List (List κ)) :
    weave [] (text :: texts) = text := rfl

/-- A text comes before its key. -/
@[simp] theorem weave_cons (key : κ) (keys text : List κ) (texts : List (List κ)) :
    weave (key :: keys) (text :: texts) = text ++ key :: weave keys texts := rfl

/-- A leaf has no subtrees, another node has one more than it has keys. -/
def Fits (leaf : Bool) (keys : List κ) (children : List α) : Prop :=
  children.length = if leaf then 0 else keys.length + 1

/-- A leaf has no subtrees. -/
theorem Fits.nil {keys : List κ} {children : List α} (fits : Fits true keys children) :
    children = [] := by
  simpa [Fits] using fits

/-- What fits depends on the numbers only. -/
theorem Fits.map {leaf : Bool} {keys : List κ} {children : List α} (f : α → β) :
    Fits leaf keys (children.map f) ↔ Fits leaf keys children := by
  simp only [Fits, List.length_map]

/-- Two nodes and a key between them fit together. -/
theorem Fits.append {leaf : Bool} {left right : List κ} {before after : List α} (key : κ)
    (first : Fits leaf left before) (second : Fits leaf right after) :
    Fits leaf (left ++ key :: right) (before ++ after) := by
  cases leaf
  · simp only [Fits, List.length_append, List.length_cons] at first second ⊢
    simp only [first, second]
    simp
    omega
  · simp only [Fits, List.length_append] at first second ⊢
    simp [first, second]

/-- A node cut at a key is read as its two parts with the key between them. -/
theorem weave_append {leaf : Bool} {left right : List κ} {before after : List (List κ)} (key : κ)
    (first : Fits leaf left before) (second : Fits leaf right after) :
    weave (left ++ key :: right) (before ++ after) =
      weave left before ++ key :: weave right after := by
  cases leaf
  · induction left generalizing before with
    | nil =>
      cases before with
      | nil => simp [Fits] at first
      | cons text before =>
        cases before with
        | nil => simp
        | cons _ _ => simp [Fits] at first
    | cons head left ih =>
      cases before with
      | nil => simp [Fits] at first
      | cons text before =>
        have rest : Fits false left before := by simpa [Fits] using first
        simp [ih rest]
  · rw [first.nil, second.nil]
    simp

/-- A node that fits can be cut at any key. -/
theorem Fits.cut {leaf : Bool} {keys : List κ} {children : List α} {i : Nat}
    (fits : Fits leaf keys children) (inside : i < keys.length) :
    ∃ left key right before after, keys = left ++ key :: right ∧ left.length = i ∧
      children = before ++ after ∧ Fits leaf left before ∧ Fits leaf right after := by
  have parts : keys = keys.take i ++ keys[i] :: keys.drop (i + 1) := by
    rw [← List.drop_eq_getElem_cons inside, List.take_append_drop]
  have front : (keys.take i).length = i := by
    rw [List.length_take]
    omega
  cases leaf
  · have total : children.length = keys.length + 1 := fits
    refine ⟨_, _, _, children.take (i + 1), children.drop (i + 1), parts, front,
      (List.take_append_drop _ _).symm, ?_, ?_⟩
    · simp [Fits]
      omega
    · simp [Fits]
      omega
  · exact ⟨_, _, _, [], [], parts, front, fits.nil, rfl, rfl⟩

/-- A node that fits is read by going through its keys, with the subtree before each. -/
theorem weave_eq_flatMap {keys : List κ} {texts : List (List κ)}
    (fits : texts.length = keys.length + 1) :
    weave keys texts = (List.range keys.length).flatMap (fun i =>
      texts[i]?.getD [] ++ keys[i]?.toList) ++ texts[keys.length]?.getD [] := by
  induction keys generalizing texts with
  | nil =>
    obtain ⟨text, rfl⟩ := List.length_eq_one_iff.mp fits
    simp
  | cons key keys ih =>
    cases texts with
    | nil => simp at fits
    | cons text texts =>
      have rest := @ih texts (by simpa using fits)
      simp [List.range_succ_eq_map, List.flatMap_map, rest]

/-- A node whose subtrees are all empty is read as its keys. -/
theorem weave_replicate (keys : List κ) :
    weave keys (List.replicate (keys.length + 1) []) = keys := by
  induction keys with
  | nil => rfl
  | cons key keys ih =>
    rw [List.length_cons, List.replicate_succ, weave_cons, ih]
    rfl

/-- A loop that appends a piece in each pass. -/
theorem foldlM_append {γ : Type} {m : Type → Type} [Monad m] [LawfulMonad m] {num : Nat}
    {body : List γ → Nat → m (List γ)} {piece : Nat → List γ}
    (pass : ∀ text, ∀ i < num, body text i = pure (text ++ piece i)) :
    (List.range num).foldlM body [] = pure ((List.range num).flatMap piece) := by
  induction num with
  | zero => rfl
  | succ num ih =>
    have before := ih fun text i less => pass text i (less.trans (Nat.lt_succ_self _))
    rw [List.range_succ, List.foldlM_append, before, pure_bind, List.foldlM_cons,
      pass _ num (Nat.lt_succ_self _), pure_bind, List.foldlM_nil, List.flatMap_append, List.flatMap_singleton]

/-- A subtree of a node with the keys and subtrees on either side of it, the nearest first. -/
structure Focus (κ α : Type*) where
  /-- The subtrees before it, each with the key that follows it. -/
  front : List (α × κ)
  /-- The subtree in focus. -/
  child : α
  /-- The subtrees after it, each with the key before it. -/
  back : List (κ × α)

namespace Focus

/-- The keys of the node. -/
def keys (f : Focus κ α) : List κ :=
  (f.front.map Prod.snd).reverse ++ f.back.map Prod.fst

/-- The subtrees of the node. -/
def children (f : Focus κ α) : List α :=
  (f.front.map Prod.fst).reverse ++ f.child :: f.back.map Prod.snd

/-- The keys before the subtree in focus. -/
def low (f : Focus κ α) : List κ := (f.front.map Prod.snd).reverse

/-- The keys after the subtree in focus. -/
def high (f : Focus κ α) : List κ := f.back.map Prod.fst

/-- The subtrees before the one in focus. -/
def left (f : Focus κ α) : List α := (f.front.map Prod.fst).reverse

/-- The subtrees after the one in focus. -/
def right (f : Focus κ α) : List α := f.back.map Prod.snd

/-- The keys on both sides. -/
theorem keys_eq (f : Focus κ α) : f.keys = f.low ++ f.high := rfl

/-- The subtrees on both sides. -/
theorem children_eq (f : Focus κ α) : f.children = f.left ++ f.child :: f.right := rfl

/-- There are as many keys as subtrees before the one in focus. -/
theorem low_length (f : Focus κ α) : f.low.length = f.left.length := by
  simp [low, left]

/-- A node that fits has a focus wherever its keys are divided. -/
theorem exists_at {before after : List κ} {children : List α}
    (fit : Fits false (before ++ after) children) :
    ∃ f : Focus κ α, f.low = before ∧ f.high = after ∧ f.children = children := by
  have total : children.length = before.length + after.length + 1 := by
    simpa [Fits, Nat.add_assoc] using fit
  have inside : before.length < children.length := by omega
  have parts : children.take before.length ++ children[before.length] ::
      children.drop (before.length + 1) = children := by
    rw [← List.drop_eq_getElem_cons inside, List.take_append_drop]
  have front : (children.take before.length).length = before.length := by
    rw [List.length_take]
    omega
  have back : (children.drop (before.length + 1)).length = after.length := by
    rw [List.length_drop]
    omega
  refine ⟨⟨((children.take before.length).zip before).reverse, children[before.length],
    after.zip (children.drop (before.length + 1))⟩, ?_, ?_, ?_⟩
  · rw [low, List.map_reverse, List.reverse_reverse, List.map_snd_zip front.ge]
  · rw [high, List.map_fst_zip back.ge]
  · rw [children_eq, left, right, List.map_reverse, List.reverse_reverse,
      List.map_fst_zip front.le, List.map_snd_zip back.le]
    exact parts

/-- A node in focus has one subtree more than it has keys. -/
theorem fits (f : Focus κ α) : Fits false f.keys f.children := by
  simp [Fits, keys, children]
  omega

/-- The focus on the first subtree. -/
def first (keys : List κ) : List α → Option (Focus κ α)
  | [] => none
  | child :: children => some ⟨[], child, keys.zip children⟩

/-- A node that fits has a focus on its first subtree. -/
theorem exists_first {keys : List κ} {children : List α} (fit : Fits false keys children) :
    ∃ f, first keys children = some f ∧ f.front = [] ∧ f.keys = keys ∧ f.children = children := by
  cases children with
  | nil => simp [Fits] at fit
  | cons child children =>
    have same : children.length = keys.length := by simpa [Fits] using fit
    refine ⟨⟨[], child, keys.zip children⟩, rfl, rfl, ?_, ?_⟩
    · simp [Focus.keys, List.map_fst_zip same.ge]
    · simp [Focus.children, List.map_snd_zip same.le]

/-- What is read before the subtree in focus. -/
def before (read : α → List κ) : List (α × κ) → List κ
  | [] => []
  | (child, key) :: front => before read front ++ (read child ++ [key])

/-- What is read after the subtree in focus. -/
def after (read : α → List κ) : List (κ × α) → List κ
  | [] => []
  | (key, child) :: back => key :: (read child ++ after read back)

/-- Nothing comes before nothing. -/
@[simp] theorem before_nil (read : α → List κ) : before read [] = [] := rfl

/-- The last child before the hole, and its key, come last. -/
@[simp] theorem before_cons (read : α → List κ) (child : α) (key : κ) (front : List (α × κ)) :
    before read ((child, key) :: front) = before read front ++ (read child ++ [key]) := rfl

/-- Nothing comes after nothing. -/
@[simp] theorem after_nil (read : α → List κ) : after read [] = [] := rfl

/-- The first key after the hole, and its child, come first. -/
@[simp] theorem after_cons (read : α → List κ) (key : κ) (child : α) (back : List (κ × α)) :
    after read ((key, child) :: back) = key :: (read child ++ after read back) := rfl

/-- What is read of the whole node. -/
def text (read : α → List κ) (f : Focus κ α) : List κ :=
  before read f.front ++ (read f.child ++ after read f.back)

/-- A node is read as its focus is, wherever the focus is. -/
theorem weave_eq (read : α → List κ) (f : Focus κ α) :
    weave f.keys (f.children.map read) = f.text read := by
  obtain ⟨front, child, back⟩ := f
  induction front generalizing child back with
  | nil =>
    simp only [keys, children, text]
    induction back generalizing child with
    | nil => simp
    | cons pair back ih =>
      obtain ⟨key, next⟩ := pair
      simpa using ih next
  | cons pair front ih =>
    obtain ⟨previous, key⟩ := pair
    have moved := ih previous ((key, child) :: back)
    simpa [keys, children, text] using moved

/-- The focus moves to the first subtree that is followed by a key that is not below. -/
def seek (below : κ → Bool) (front : List (α × κ)) (child : α) : List (κ × α) → Focus κ α
  | [] => ⟨front, child, []⟩
  | (key, next) :: back =>
    if below key then seek below ((child, key) :: front) next back
    else ⟨front, child, (key, next) :: back⟩

/-- Moving the focus leaves the node as it is, and stops at the first key that is not below. -/
theorem seek_spec (below : κ → Bool) (front : List (α × κ)) (child : α) (back : List (κ × α)) :
    (seek below front child back).keys = keys ⟨front, child, back⟩ ∧
      (seek below front child back).children = children ⟨front, child, back⟩ ∧
      ((∀ pair ∈ front, below pair.2) →
        ∀ pair ∈ (seek below front child back).front, below pair.2) ∧
      ∀ key next rest, (seek below front child back).back = (key, next) :: rest →
        below key = false := by
  induction back generalizing front child with
  | nil => simp [seek]
  | cons pair back ih =>
    obtain ⟨key, next⟩ := pair
    by_cases less : below key = true
    · obtain ⟨sameKeys, sameChildren, passed, stopped⟩ := ih ((child, key) :: front) next
      rw [seek, if_pos less]
      refine ⟨?_, ?_, ?_, stopped⟩
      · rw [sameKeys]
        simp [keys]
      · rw [sameChildren]
        simp [children]
      · intro all
        apply passed
        intro other member
        cases List.mem_cons.mp member with
        | inl same => rw [same]; exact less
        | inr old => exact all other old
    · rw [seek, if_neg less]
      refine ⟨rfl, rfl, fun all => all, ?_⟩
      intro k n rest same
      have head := (List.cons.inj same).1
      rw [← (Prod.mk.inj head).1]
      simpa using less

end Focus

section Order

variable [LinearOrder κ]

/-- In order, possibly with equal keys. -/
abbrev Ascending (keys : List κ) : Prop := keys.Pairwise (· ≤ ·)

/-- What is read before a focus is at most the nearest key. -/
theorem before_le {read : α → List κ} {front : List (α × κ)} {child : α} {key : κ}
    (sorted : Ascending (Focus.before read ((child, key) :: front))) :
    ∀ value ∈ Focus.before read ((child, key) :: front), value ≤ key := by
  intro value member
  rw [Focus.before_cons, ← List.append_assoc] at sorted member
  cases List.mem_append.mp member with
  | inl old => exact (List.pairwise_append.mp sorted).2.2 value old key (List.mem_singleton_self key)
  | inr same => rw [List.mem_singleton.mp same]

/-- What is read after a focus is at least the nearest key. -/
theorem le_after {read : α → List κ} {back : List (κ × α)} {child : α} {key : κ}
    (sorted : Ascending (Focus.after read ((key, child) :: back))) :
    ∀ value ∈ Focus.after read ((key, child) :: back), key ≤ value := by
  intro value member
  rw [Focus.after_cons] at sorted member
  cases List.mem_cons.mp member with
  | inl same => rw [same]
  | inr later => exact (List.pairwise_cons.mp sorted).1 value later

/-- The middle of a text in order. -/
theorem Ascending.middle {before text after : List κ}
    (sorted : Ascending (before ++ (text ++ after))) : Ascending text :=
  (List.pairwise_append.mp (List.pairwise_append.mp sorted).2.1).1

/-- A middle in order that fits keeps a text in order. -/
theorem Ascending.replace {before text after middle : List κ}
    (sorted : Ascending (before ++ (text ++ after))) (own : Ascending middle)
    (above : ∀ low ∈ before, ∀ value ∈ middle, low ≤ value)
    (under : ∀ value ∈ middle, ∀ high ∈ after, value ≤ high) :
    Ascending (before ++ (middle ++ after)) := by
  have parts := List.pairwise_append.mp sorted
  have rest := List.pairwise_append.mp parts.2.1
  refine List.pairwise_append.mpr ⟨parts.1, List.pairwise_append.mpr ⟨own, rest.2.1, under⟩, ?_⟩
  intro low lowMember value member
  cases List.mem_append.mp member with
  | inl inside => exact above low lowMember value inside
  | inr outside => exact parts.2.2 low lowMember value (List.mem_append_right _ outside)

/-- A key more in the middle keeps a text in order when it fits. -/
theorem Ascending.insert {before text after middle : List κ} {key : κ}
    (sorted : Ascending (before ++ (text ++ after))) (more : middle.Perm (key :: text))
    (own : Ascending middle) (above : ∀ low ∈ before, low ≤ key)
    (under : ∀ high ∈ after, key ≤ high) : Ascending (before ++ (middle ++ after)) := by
  have parts := List.pairwise_append.mp sorted
  have rest := List.pairwise_append.mp parts.2.1
  apply Ascending.replace sorted own
  · intro low lowMember value member
    cases List.mem_cons.mp (more.mem_iff.mp member) with
    | inl same => rw [same]; exact above low lowMember
    | inr old => exact parts.2.2 low lowMember value (List.mem_append_left _ old)
  · intro value member high highMember
    cases List.mem_cons.mp (more.mem_iff.mp member) with
    | inl same => rw [same]; exact under high highMember
    | inr old => exact rest.2.2 value old high highMember

/-- A key less in the middle keeps a text in order if it keeps the middle in order. -/
theorem Ascending.erase {before text after middle : List κ} {key : κ}
    (sorted : Ascending (before ++ (text ++ after))) (less : middle.Perm (text.erase key)) :
    Ascending (before ++ (middle ++ after)) ↔ Ascending middle := by
  have parts := List.pairwise_append.mp sorted
  have rest := List.pairwise_append.mp parts.2.1
  have old : ∀ value ∈ middle, value ∈ text := fun value member =>
    List.mem_of_mem_erase (less.mem_iff.mp member)
  constructor
  · exact Ascending.middle
  · intro own
    apply Ascending.replace sorted own
    · intro low lowMember value member
      exact parts.2.2 low lowMember value (List.mem_append_left _ (old value member))
    · intro value member high highMember
      exact rest.2.2 value (old value member) high highMember

/-- A key that is in the middle, or on neither side of it, is erased in the middle. -/
theorem erase_middle {before text after middle : List κ} {key : κ}
    (less : middle.Perm (text.erase key)) (apart : key ∈ text ∨ key ∉ before ∧ key ∉ after) :
    (before ++ (middle ++ after)).Perm ((before ++ (text ++ after)).erase key) := by
  rw [List.perm_iff_count] at less ⊢
  intro value
  have own := less value
  simp only [List.count_append, List.count_erase] at own ⊢
  by_cases same : key = value
  · subst same
    simp only [beq_self_eq_true, if_true] at own ⊢
    cases apart with
    | inl member =>
      have positive := List.count_pos_iff.mpr member
      omega
    | inr absent =>
      have low := List.count_eq_zero.mpr absent.1
      have high := List.count_eq_zero.mpr absent.2
      omega
  · have differs : (key == value) = false := by simpa using same
    simp only [differs] at own ⊢
    simp only [Bool.false_eq_true, if_false, Nat.sub_zero] at own ⊢
    omega

/-- A key is replaced by one of its neighbour's: the keys are those without it. -/
theorem replace_perm {before text after middle : List κ} {key taken : κ} (member : taken ∈ text)
    (less : middle.Perm (text.erase taken)) :
    (before ++ (middle ++ taken :: after)).Perm ((before ++ (text ++ key :: after)).erase key) := by
  have moved : (middle ++ taken :: after).Perm (text ++ after) :=
    List.perm_middle.trans ((less.cons taken).trans (List.perm_cons_erase member).symm
      |>.append_right after)
  have whole : (before ++ (text ++ key :: after)).Perm (key :: (before ++ (text ++ after))) := by
    rw [← List.append_assoc]
    exact List.perm_middle.trans (by rw [List.append_assoc])
  have erased := whole.erase key
  rw [List.erase_cons_head] at erased
  exact (moved.append_left before).trans erased.symm

/-- A key is replaced by one of the neighbour behind it: the keys are those without it. -/
theorem replace_first_perm {before text after middle : List κ} {key taken : κ}
    (member : taken ∈ text) (less : middle.Perm (text.erase taken)) :
    (before ++ taken :: (middle ++ after)).Perm
      ((before ++ key :: (text ++ after)).erase key) := by
  have moved : (taken :: (middle ++ after)).Perm (text ++ after) :=
    ((less.cons taken).trans (List.perm_cons_erase member).symm).append_right after
  have erased := (@List.perm_middle _ key before (text ++ after)).erase key
  rw [List.erase_cons_head] at erased
  exact (moved.append_left before).trans erased.symm

/-- The key after the middle is replaced by one of the middle's: the text is in order exactly if
the key taken is the largest. -/
theorem Ascending.take_last {before text after middle : List κ} {key taken : κ}
    (sorted : Ascending (before ++ (text ++ key :: after))) (member : taken ∈ text)
    (less : middle.Perm (text.erase taken)) :
    Ascending (before ++ (middle ++ taken :: after)) ↔
      Ascending middle ∧ ∀ value ∈ text, value ≤ taken := by
  have parts := List.pairwise_append.mp sorted
  have rest := List.pairwise_append.mp parts.2.1
  have old : ∀ value ∈ middle, value ∈ text := fun value inside =>
    List.mem_of_mem_erase (less.mem_iff.mp inside)
  have last : taken ≤ key := rest.2.2 taken member key List.mem_cons_self
  constructor
  · intro whole
    have tail := List.pairwise_append.mp (List.pairwise_append.mp whole).2.1
    refine ⟨tail.1, fun value inside => ?_⟩
    by_cases same : value = taken
    · exact same.le
    · have kept := less.mem_iff.mpr ((List.mem_erase_of_ne same).mpr inside)
      exact tail.2.2 value kept taken List.mem_cons_self
  · intro fits
    have later := List.pairwise_cons.mp rest.2.1
    refine List.pairwise_append.mpr ⟨parts.1, List.pairwise_append.mpr ⟨fits.1, ?_, ?_⟩, ?_⟩
    · exact List.pairwise_cons.mpr
        ⟨fun value inside => last.trans (later.1 value inside), later.2⟩
    · intro value inside high highMember
      cases List.mem_cons.mp highMember with
      | inl same => rw [same]; exact fits.2 value (old value inside)
      | inr beyond =>
        exact rest.2.2 value (old value inside) high (List.mem_cons_of_mem key beyond)
    · intro low lowMember value inside
      cases List.mem_append.mp inside with
      | inl kept => exact parts.2.2 low lowMember value (List.mem_append_left _ (old value kept))
      | inr moved =>
        cases List.mem_cons.mp moved with
        | inl same => rw [same]; exact parts.2.2 low lowMember taken (List.mem_append_left _ member)
        | inr beyond =>
          exact parts.2.2 low lowMember value
            (List.mem_append_right _ (List.mem_cons_of_mem key beyond))

/-- The key before the middle is replaced by one of the middle's: the text is in order exactly if
the key taken is the smallest. -/
theorem Ascending.take_first {before text after middle : List κ} {key taken : κ}
    (sorted : Ascending (before ++ key :: (text ++ after))) (member : taken ∈ text)
    (less : middle.Perm (text.erase taken)) :
    Ascending (before ++ taken :: (middle ++ after)) ↔
      Ascending middle ∧ ∀ value ∈ text, taken ≤ value := by
  have parts := List.pairwise_append.mp sorted
  have behind := List.pairwise_cons.mp parts.2.1
  have rest := List.pairwise_append.mp behind.2
  have old : ∀ value ∈ middle, value ∈ text := fun value inside =>
    List.mem_of_mem_erase (less.mem_iff.mp inside)
  have first : key ≤ taken := behind.1 taken (List.mem_append_left _ member)
  constructor
  · intro whole
    have tail := List.pairwise_cons.mp (List.pairwise_append.mp whole).2.1
    refine ⟨(List.pairwise_append.mp tail.2).1, fun value inside => ?_⟩
    by_cases same : value = taken
    · exact same.ge
    · have kept := less.mem_iff.mpr ((List.mem_erase_of_ne same).mpr inside)
      exact tail.1 value (List.mem_append_left _ kept)
  · intro fits
    have middleFits : ∀ value ∈ middle, ∀ high ∈ after, value ≤ high :=
      fun value inside high highMember => rest.2.2 value (old value inside) high highMember
    refine List.pairwise_append.mpr ⟨parts.1, List.pairwise_cons.mpr
      ⟨?_, List.pairwise_append.mpr ⟨fits.1, rest.2.1, middleFits⟩⟩, ?_⟩
    · intro value inside
      cases List.mem_append.mp inside with
      | inl kept => exact fits.2 value (old value kept)
      | inr beyond => exact rest.2.2 taken member value beyond
    · intro low lowMember value inside
      have under := parts.2.2 low lowMember key List.mem_cons_self
      cases List.mem_cons.mp inside with
      | inl same => rw [same]; exact under.trans first
      | inr kept =>
        cases List.mem_append.mp kept with
        | inl moved =>
          exact under.trans (behind.1 value (List.mem_append_left _ (old value moved)))
        | inr beyond => exact under.trans (behind.1 value (List.mem_append_right _ beyond))

end Order

end BackendCpp.Library
