import Mathlib.Data.List.Lex
import Mathlib.Data.List.Nodup
import Mathlib.Data.List.TakeWhile
import Mathlib.Data.Finset.Sort
import Mathlib.Order.Bounds.Basic
import Mathlib.Order.Cover
import F4kvsLsm.Lib.PartitionPoint

/-!
# Items in key order

Searching a list whose items are in strict key order is filtering it: what a
predicate holds of from some key on is a suffix, what it holds of up to some
key is a prefix.  A listing is the ordered list of the wanted keys that have a
value, and there is only one.
-/

namespace KeyOrder

open BinarySearch

universe u v w

variable {α : Type u} {κ : Type v} {β : Type w} [LinearOrder κ]

def Ascending (key : α → κ) (items : List α) : Prop :=
  items.Pairwise fun first second => key first < key second

/-! ## Searching -/

section

variable {key : α → κ} {items : List α} {predicate : α → Bool}

theorem Ascending.filter (ascending : Ascending key items)
    (predicate : α → Bool) : Ascending key (items.filter predicate) :=
  List.Pairwise.filter predicate ascending

theorem Ascending.eq_of_key_eq
    (ascending : Ascending key items) {first second : α}
    (firstMember : first ∈ items) (secondMember : second ∈ items)
    (sameKey : key first = key second) : first = second := by
  have nodup : (items.map key).Nodup := by
    rw [List.Nodup, List.pairwise_map]
    exact ascending.imp fun less => less.ne
  exact List.inj_on_of_nodup_map nodup firstMember secondMember sameKey

theorem Ascending.eq_of_mem_iff
    {items' : List α} (ascending : Ascending key items)
    (ascending' : Ascending key items')
    (same : ∀ item, item ∈ items ↔ item ∈ items') : items = items' := by
  have nodup : items.Nodup :=
    ascending.imp fun less same => less.ne (congrArg key same)
  have nodup' : items'.Nodup :=
    ascending'.imp fun less same => less.ne (congrArg key same)
  have perm : items.Perm items' :=
    (List.perm_ext_iff_of_nodup nodup nodup').mpr same
  apply perm.eq_of_pairwise _ ascending ascending'
  intro first second _ _ less more
  exact absurd less more.asymm

/-- The predicate holds of everything in front of an item of which it
holds. -/
def Downward (key : α → κ) (predicate : α → Bool) (items : List α) : Prop :=
  ∀ first ∈ items, ∀ second ∈ items, key first < key second →
    predicate second = true → predicate first = true

theorem Downward.tail {item : α} {rest : List α}
    (downward : Downward key predicate (item :: rest)) :
    Downward key predicate rest :=
  fun first firstMember second secondMember =>
    downward first (List.mem_cons_of_mem _ firstMember) second
      (List.mem_cons_of_mem _ secondMember)

/-- Behind an item of which the predicate does not hold it holds of none. -/
theorem Downward.fails_behind {item : α} {rest : List α}
    (downward : Downward key predicate (item :: rest))
    (ascending : Ascending key (item :: rest))
    (fails : predicate item = false) :
    ∀ other ∈ rest, predicate other = false := by
  intro other member
  have less := (List.pairwise_cons.mp ascending).1 other member
  cases holds : predicate other with
  | false => rfl
  | true =>
      have front := downward item List.mem_cons_self other
        (List.mem_cons_of_mem _ member) less holds
      rw [front] at fails
      exact absurd fails (by simp)

theorem takeWhile_eq_filter
    (ascending : Ascending key items)
    (downward : Downward key predicate items) :
    items.takeWhile predicate = items.filter predicate := by
  induction items with
  | nil => rfl
  | cons item rest inductionHypothesis =>
      cases here : predicate item with
      | true =>
          rw [List.takeWhile_cons_of_pos here, List.filter_cons_of_pos here,
            inductionHypothesis (List.pairwise_cons.mp ascending).2
              downward.tail]
      | false =>
          have behind := downward.fails_behind ascending here
          rw [List.takeWhile_cons_of_neg (by simp [here]),
            List.filter_cons_of_neg (by simp [here])]
          symm
          apply List.filter_eq_nil_iff.mpr
          intro other member
          rw [behind other member]
          exact Bool.false_ne_true

theorem dropWhile_eq_filter
    (ascending : Ascending key items)
    (downward : Downward key predicate items) :
    items.dropWhile predicate = items.filter (!predicate ·) := by
  induction items with
  | nil => rfl
  | cons item rest inductionHypothesis =>
      cases here : predicate item with
      | true =>
          rw [List.dropWhile_cons_of_pos here,
            List.filter_cons_of_neg (by simp [here]),
            inductionHypothesis (List.pairwise_cons.mp ascending).2
              downward.tail]
      | false =>
          have behind := downward.fails_behind ascending here
          rw [List.dropWhile_cons_of_neg (by simp [here])]
          symm
          apply List.filter_eq_self.mpr
          intro other member
          rcases List.mem_cons.mp member with same | later
          · rw [same, here]
            rfl
          · rw [behind other later]
            rfl

/-- The binary search cuts where the predicate stops. -/
theorem partitionPoint_eq_takeWhile
    (ascending : Ascending key items)
    (downward : Downward key predicate items) :
    partitionPoint predicate items = (items.takeWhile predicate).length := by
  have partitioned : Partitioned predicate (items.takeWhile predicate)
      (items.dropWhile predicate) := by
    constructor
    · exact fun item member => List.mem_takeWhile_imp member
    · intro item member
      rw [dropWhile_eq_filter ascending downward] at member
      simpa using (List.mem_filter.mp member).2
  have point := partitionPoint_eq partitioned
  rwa [List.takeWhile_append_dropWhile] at point

theorem drop_partitionPoint
    (ascending : Ascending key items)
    (downward : Downward key predicate items) :
    items.drop (partitionPoint predicate items) =
      items.filter (!predicate ·) := by
  have cut : items = items.takeWhile predicate ++ items.dropWhile predicate :=
    List.takeWhile_append_dropWhile.symm
  rw [partitionPoint_eq_takeWhile ascending downward,
    ← dropWhile_eq_filter ascending downward]
  nth_rewrite 2 [cut]
  exact List.drop_left

theorem downward_below (key : α → κ) (bound : κ) (items : List α) :
    Downward key (fun item => key item < bound) items := by
  intro first _ second _ less below
  rw [decide_eq_true_eq] at below ⊢
  exact less.trans below

theorem drop_partitionPoint_lt
    (ascending : Ascending key items) (bound : κ) :
    items.drop (partitionPoint (fun item => key item < bound) items) =
      items.filter (fun item => bound ≤ key item) := by
  rw [drop_partitionPoint ascending (downward_below key bound items)]
  congr 1
  funext item
  rw [← decide_not]
  exact decide_eq_decide.mpr not_lt

end

/-! ## Listings -/

/-- The wanted keys that have a value, in order, each with its value. -/
structure Listing (wanted : κ → Prop) (value : κ → Option β)
    (items : List (κ × β)) : Prop where
  ascending : Ascending Prod.fst items
  mem_iff : ∀ key found,
    (key, found) ∈ items ↔ wanted key ∧ value key = some found

section

variable {wanted : κ → Prop} {value value' : κ → Option β}
variable {items items' : List (κ × β)}

theorem Listing.unique
    (listing : Listing wanted value items)
    (listing' : Listing wanted value items') : items = items' := by
  apply listing.ascending.eq_of_mem_iff listing'.ascending
  intro item
  rw [listing.mem_iff item.1 item.2, listing'.mem_iff item.1 item.2]

/-- A listing of one value is a listing of another one exactly when they
agree on the wanted keys. -/
theorem Listing.iff_agree (listing : Listing wanted value items) :
    Listing wanted value' items ↔
      ∀ key, wanted key → value key = value' key := by
  constructor
  · intro listing' key isWanted
    apply Option.ext
    intro found
    have both := (listing.mem_iff key found).symm.trans
      (listing'.mem_iff key found)
    simpa [isWanted] using both
  · intro agree
    refine ⟨listing.ascending, fun key found => ?_⟩
    rw [listing.mem_iff]
    exact and_congr_right fun isWanted => by rw [agree key isWanted]

end

/-- The same list is a listing of something else exactly when the wanted
values are the same. -/
theorem Listing.iff_same_values
    {wanted wanted' : κ → Prop} {value value' : κ → Option β}
    {items : List (κ × β)} (listing : Listing wanted value items) :
    Listing wanted' value' items ↔
      ∀ key found, (wanted key ∧ value key = some found) ↔
        (wanted' key ∧ value' key = some found) := by
  constructor
  · intro listing' key found
    rw [← listing.mem_iff, listing'.mem_iff]
  · intro same
    refine ⟨listing.ascending, fun key found => ?_⟩
    rw [listing.mem_iff, same]

/-- Items that leave out nothing below any of them are a prefix. -/
theorem Ascending.isPrefix_of_downward {key : α → κ} {items whole : List α}
    (ascending : Ascending key items) (ascending' : Ascending key whole)
    (sub : ∀ item ∈ items, item ∈ whole)
    (downward : ∀ item ∈ items, ∀ other ∈ whole,
      key other < key item → other ∈ items) : items <+: whole := by
  induction whole generalizing items with
  | nil =>
      cases items with
      | nil => exact List.nil_prefix
      | cons item rest =>
          exact absurd (sub item List.mem_cons_self) List.not_mem_nil
  | cons first others inductionHypothesis =>
      have orderedWhole := List.pairwise_cons.mp ascending'
      cases items with
      | nil => exact List.nil_prefix
      | cons item rest =>
          have ordered := List.pairwise_cons.mp ascending
          have same : item = first := by
            rcases List.mem_cons.mp (sub item List.mem_cons_self) with
              here | behind
            · exact here
            · have less := orderedWhole.1 item behind
              have member := downward item List.mem_cons_self first
                List.mem_cons_self less
              rcases List.mem_cons.mp member with here | later
              · exact here.symm
              · exact absurd less (ordered.1 first later).asymm
          rw [same, List.cons_prefix_cons]
          apply And.intro rfl
          apply inductionHypothesis ordered.2 orderedWhole.2
          · intro other member
            have less := ordered.1 other member
            rw [same] at less
            have inWhole := sub other (List.mem_cons_of_mem _ member)
            rcases List.mem_cons.mp inWhole with here | behind
            · rw [here] at less
              exact absurd less (lt_irrefl _)
            · exact behind
          · intro other member below inOthers less
            have inItems := downward other (List.mem_cons_of_mem _ member)
              below (List.mem_cons_of_mem _ inOthers) less
            rcases List.mem_cons.mp inItems with here | behind
            · have above := orderedWhole.1 below inOthers
              rw [here, same] at above
              exact absurd above (lt_irrefl _)
            · exact behind

theorem Ascending.mem_of_isPrefix {key : α → κ} {items whole : List α}
    (ascending : Ascending key whole) (begins : items <+: whole)
    {item other : α} (member : item ∈ items) (inWhole : other ∈ whole)
    (below : key other ≤ key item) : other ∈ items := by
  rcases begins with ⟨rest, rfl⟩
  rcases List.mem_append.mp inWhole with front | back
  · exact front
  · have less := (List.pairwise_append.mp ascending).2.2 item member other
      back
    exact absurd below less.not_ge

/-! ## The first keys of a list -/

/-- The first keys of the list are in order, and what follows repeats one of
them or is above them all. -/
def StartsInOrder (limit : Nat) (keys : List κ) : Prop :=
  (keys.take limit).Pairwise (· < ·) ∧
    ∀ key ∈ keys.drop limit, key ∈ keys.take limit ∨
      ∀ taken ∈ keys.take limit, taken < key

instance (limit : Nat) (keys : List κ) : Decidable (StartsInOrder limit keys) :=
  inferInstanceAs (Decidable (_ ∧ _))

/-- The first keys of a list are the least ones exactly when the list starts
in order. -/
theorem take_eq_take_iff {keys ordered : List κ}
    (ascending : ordered.Pairwise (· < ·))
    (same : ∀ key, key ∈ ordered ↔ key ∈ keys) (limit : Nat) :
    keys.take limit = ordered.take limit ↔ StartsInOrder limit keys := by
  constructor
  · intro least
    rw [StartsInOrder, least]
    apply And.intro (ascending.sublist (List.take_sublist limit ordered))
    intro key member
    have inOrdered := (same key).mpr (List.mem_of_mem_drop member)
    have cut := ascending
    rw [← List.take_append_drop limit ordered] at inOrdered cut
    rcases List.mem_append.mp inOrdered with front | back
    · exact Or.inl front
    · right
      intro taken first
      exact (List.pairwise_append.mp cut).2.2 taken first key back
  · intro starts
    have taken : Ascending id (keys.take limit) := starts.1
    have begins : keys.take limit <+: ordered := by
      apply taken.isPrefix_of_downward ascending
      · exact fun key member => (same key).mpr (List.mem_of_mem_take member)
      · intro key member other inOrdered less
        have inKeys := (same other).mp inOrdered
        rw [← List.take_append_drop limit keys] at inKeys
        rcases List.mem_append.mp inKeys with front | back
        · exact front
        · rcases starts.2 other back with repeated | above
          · exact repeated
          · exact absurd less (above key member).asymm
    rcases Nat.le_total limit keys.length with long | short
    · have cut := List.prefix_iff_eq_take.mp begins
      rwa [List.length_take, Nat.min_eq_left long] at cut
    · rw [List.take_of_length_le short] at begins ⊢
      have nodup : ordered.Nodup := ascending.imp fun less => less.ne
      have fits : ordered.length ≤ keys.length :=
        (nodup.subperm fun key => (same key).mp).length_le
      rw [begins.eq_of_length_le fits,
        List.take_of_length_le (fits.trans short)]

/-! ## The least of some offers -/

section

variable {wanted : κ → Bool} {offers : List (Option κ)} {keys : List κ}

/-- An offer is the first key that is held, if one is. -/
structure FirstOf (held : κ → Prop) (offer : Option κ) : Prop where
  sound : ∀ key, offer = some key → held key
  least : ∀ key, held key → ∃ first ≤ key, offer = some first

theorem FirstOf.head?
    {items : List α} {key : α → κ} (ascending : Ascending key items) :
    FirstOf (fun wanted => ∃ item ∈ items, key item = wanted)
      (items.head?.map key) := by
  cases items with
  | nil => exact ⟨by simp, by simp⟩
  | cons first rest =>
      constructor
      · intro wanted found
        exact ⟨first, List.mem_cons_self, by simpa using found⟩
      · rintro wanted ⟨item, member, rfl⟩
        refine ⟨key first, ?_, rfl⟩
        rcases List.mem_cons.mp member with here | behind
        · rw [here]
        · exact ((List.pairwise_cons.mp ascending).1 item behind).le

def keepLeast (wanted : κ → Bool) (best : Option κ) (candidate : κ) :
    Option κ :=
  if wanted candidate then
    match best with
    | none => some candidate
    | some kept => if candidate < kept then some candidate else best
  else best

theorem keepLeast_unwanted {candidate : κ}
    (unwanted : wanted candidate = false) (best : Option κ) :
    keepLeast wanted best candidate = best := by
  unfold keepLeast
  rw [unwanted]
  rfl

theorem keepLeast_none {candidate : κ}
    (isWanted : wanted candidate = true) :
    keepLeast wanted none candidate = some candidate := by
  unfold keepLeast
  rw [isWanted]
  rfl

theorem keepLeast_some {candidate : κ}
    (isWanted : wanted candidate = true) (kept : κ) :
    keepLeast wanted (some kept) candidate = some (min candidate kept) := by
  unfold keepLeast
  rw [if_pos isWanted]
  simp only
  split
  · case isTrue below => rw [min_eq_left below.le]
  · case isFalse above => rw [min_eq_right (not_lt.mp above)]

/-- Go through the offers, some of which are empty. -/
def considerOffers (keep : Option κ → κ → Option κ)
    (offers : List (Option κ)) : Option κ :=
  offers.foldl (fun best offer =>
    match offer with
    | some candidate => keep best candidate
    | none => best) none

omit [LinearOrder κ] in
theorem considerOffers_append_singleton (keep : Option κ → κ → Option κ)
    (offers : List (Option κ)) (offer : Option κ) :
    considerOffers keep (offers ++ [offer]) =
      match offer with
      | some candidate => keep (considerOffers keep offers) candidate
      | none => considerOffers keep offers := by
  rw [considerOffers, List.foldl_append]
  rfl

/-- Go on with more offers. -/
def considerFrom (keep : Option κ → κ → Option κ) (best : Option κ)
    (offers : List (Option κ)) : Option κ :=
  offers.foldl (fun best offer =>
    match offer with
    | some candidate => keep best candidate
    | none => best) best

omit [LinearOrder κ] in
theorem considerOffers_append (keep : Option κ → κ → Option κ)
    (offers more : List (Option κ)) :
    considerOffers keep (offers ++ more) =
      considerFrom keep (considerOffers keep offers) more :=
  List.foldl_append

theorem considerOffers_spec (wanted : κ → Bool) (offers : List (Option κ)) :
    (∀ key, considerOffers (keepLeast wanted) offers = some key →
      some key ∈ offers ∧ wanted key = true) ∧
    ∀ key, some key ∈ offers → wanted key = true →
      ∃ least, considerOffers (keepLeast wanted) offers = some least ∧
        least ≤ key := by
  induction offers using List.reverseRecOn with
  | nil => simp [considerOffers]
  | append_singleton offers offer inductionHypothesis =>
      rcases inductionHypothesis with ⟨sound, least⟩
      rw [considerOffers_append_singleton]
      cases offer with
      | none =>
          constructor
          · intro key found
            exact ⟨List.mem_append_left _ (sound key found).1,
              (sound key found).2⟩
          · intro key member
            apply least key
            simpa using member
      | some candidate =>
          simp only
          cases isWanted : wanted candidate with
          | false =>
              rw [keepLeast_unwanted isWanted]
              constructor
              · intro key found
                exact ⟨List.mem_append_left _ (sound key found).1,
                  (sound key found).2⟩
              · intro key member keyWanted
                apply least key _ keyWanted
                rcases List.mem_append.mp member with before | here
                · exact before
                · rw [List.mem_singleton, Option.some.injEq] at here
                  rw [here, isWanted] at keyWanted
                  exact absurd keyWanted (by simp)
          | true =>
              cases best : considerOffers (keepLeast wanted) offers with
              | none =>
                  rw [keepLeast_none isWanted]
                  constructor
                  · intro key found
                    rw [Option.some.injEq] at found
                    rw [← found]
                    exact ⟨by simp, isWanted⟩
                  · intro key member keyWanted
                    refine ⟨candidate, rfl, ?_⟩
                    rcases List.mem_append.mp member with before | here
                    · have below := least key before keyWanted
                      simp [best] at below
                    · rw [List.mem_singleton, Option.some.injEq] at here
                      exact here.ge
              | some kept =>
                  rw [keepLeast_some isWanted]
                  have keptOffer := sound kept best
                  constructor
                  · intro key found
                    rw [Option.some.injEq] at found
                    rw [← found]
                    rcases min_choice candidate kept with same | same
                    · rw [same]
                      exact ⟨by simp, isWanted⟩
                    · rw [same]
                      exact ⟨List.mem_append_left _ keptOffer.1,
                        keptOffer.2⟩
                  · intro key member keyWanted
                    refine ⟨_, rfl, ?_⟩
                    rcases List.mem_append.mp member with before | here
                    · have below := least key before keyWanted
                      simp only [best, Option.some.injEq] at below
                      rcases below with ⟨_, rfl, under⟩
                      exact (min_le_right _ _).trans under
                    · rw [List.mem_singleton, Option.some.injEq] at here
                      exact here ▸ min_le_left _ _

theorem considerOffers_of_same {offers' : List (Option κ)}
    (same : ∀ key, wanted key = true →
      (some key ∈ offers ↔ some key ∈ offers')) {key : κ}
    (found : considerOffers (keepLeast wanted) offers = some key) :
    considerOffers (keepLeast wanted) offers' = some key := by
  have first := considerOffers_spec wanted offers
  have second := considerOffers_spec wanted offers'
  have offered := first.1 key found
  rcases second.2 key ((same key offered.2).mp offered.1) offered.2 with
    ⟨least, found', below⟩
  have offered' := second.1 least found'
  rcases first.2 least ((same least offered'.2).mpr offered'.1)
    offered'.2 with ⟨kept, found'', above⟩
  rw [found, Option.some.injEq] at found''
  rw [found', le_antisymm below (found''.symm ▸ above)]

theorem considerOffers_congr {offers' : List (Option κ)}
    (same : ∀ key, wanted key = true →
      (some key ∈ offers ↔ some key ∈ offers')) :
    considerOffers (keepLeast wanted) offers =
      considerOffers (keepLeast wanted) offers' := by
  apply Option.ext
  intro key
  constructor
  · exact considerOffers_of_same same
  · exact considerOffers_of_same fun key isWanted => (same key isWanted).symm

/-- When the wanted offers are some of the keys, and none of the keys is below
all of them, the least offer is the first key. -/
theorem considerOffers_eq_head?
    (ascending : keys.Pairwise (· < ·))
    (sound : ∀ key, some key ∈ offers → wanted key = true → key ∈ keys)
    (complete : ∀ key ∈ keys, ∃ least ≤ key,
      some least ∈ offers ∧ wanted least = true) :
    considerOffers (keepLeast wanted) offers = keys.head? := by
  have spec := considerOffers_spec wanted offers
  cases keys with
  | nil =>
      cases result : considerOffers (keepLeast wanted) offers with
      | none => rfl
      | some key =>
          have offered := spec.1 key result
          exact absurd (sound key offered.1 offered.2) List.not_mem_nil
  | cons first rest =>
      rcases complete first List.mem_cons_self with
        ⟨offer, below, offered, isWanted⟩
      rcases spec.2 offer offered isWanted with ⟨least, result, under⟩
      have member := spec.1 least result
      have inKeys := sound least member.1 member.2
      have above : first ≤ least := by
        rcases List.mem_cons.mp inKeys with same | behind
        · exact same.ge
        · exact ((List.pairwise_cons.mp ascending).1 least behind).le
      rw [result, List.head?_cons,
        le_antisymm (under.trans below) above]

theorem exists_ordered (keys : List κ) :
    ∃ ordered : List κ, ordered.Pairwise (· < ·) ∧
      ∀ key, key ∈ ordered ↔ key ∈ keys := by
  refine ⟨keys.toFinset.sort (· ≤ ·), ?_, ?_⟩
  · exact Finset.sortedLT_sort keys.toFinset |>.pairwise
  · intro key
    rw [Finset.mem_sort, List.mem_toFinset]

end

/-! ## Prefixes -/

section

variable {front low high : List κ}

theorem cons_lt_cons_iff {first second : κ} {rest rest' : List κ} :
    first :: rest < second :: rest' ↔
      first < second ∨ first = second ∧ rest < rest' :=
  List.cons_lt_cons_iff

theorem append_lt_append_iff (front : List κ) :
    front ++ low < front ++ high ↔ low < high := by
  induction front with
  | nil => rfl
  | cons item front inductionHypothesis =>
      rw [List.cons_append, List.cons_append, cons_lt_cons_iff,
        inductionHypothesis]
      simp

theorem le_of_isPrefix (starts : front <+: low) : front ≤ low := by
  induction front generalizing low with
  | nil => exact not_lt.mp (List.not_lt_nil low)
  | cons item front inductionHypothesis =>
      cases low with
      | nil => exact absurd (List.prefix_nil.mp starts) (by simp)
      | cons head low =>
          rw [List.cons_prefix_cons] at starts
          rw [starts.1]
          exact List.cons_le_cons head (inductionHypothesis starts.2)

/-- Between a prefix and a list that starts with it everything does. -/
theorem isPrefix_of_between
    (starts : front <+: high) (above : front ≤ low) (below : low ≤ high) :
    front <+: low := by
  induction front generalizing low high with
  | nil => exact List.nil_prefix
  | cons item front inductionHypothesis =>
      cases high with
      | nil => exact absurd (List.prefix_nil.mp starts) (by simp)
      | cons last high =>
          rw [List.cons_prefix_cons] at starts
          rw [← starts.1] at below
          cases low with
          | nil => exact absurd (List.nil_lt_cons item front) above.not_gt
          | cons head low =>
              rw [← not_lt, cons_lt_cons_iff, not_or, not_and] at above below
              have same : item = head :=
                le_antisymm (not_lt.mp above.1) (not_lt.mp below.1)
              rw [← same, List.cons_prefix_cons]
              apply And.intro rfl
              apply inductionHypothesis starts.2
              · exact not_lt.mp (above.2 same.symm)
              · exact not_lt.mp (below.2 same)

/-- Below a longer list there is nothing behind a prefix of it but what
starts with the prefix. -/
theorem le_or_isPrefix_of_lt_append (below : low < front ++ high) :
    low ≤ front ∨ front <+: low := by
  rcases le_total low front with under | above
  · exact Or.inl under
  · exact Or.inr (isPrefix_of_between (List.prefix_append front high) above
      below.le)

/-- When no item is between two items, counting up the last item bounds the
lists that start with the whole prefix. -/
theorem lt_append_singleton_iff {item next : κ} (covers : item ⋖ next) :
    low < front ++ [next] ↔
      low ≤ front ++ [item] ∨ front ++ [item] <+: low := by
  have less : front ++ [item] < front ++ [next] :=
    (append_lt_append_iff front).mpr
      (cons_lt_cons_iff.mpr (Or.inl covers.lt))
  constructor
  · intro below
    rcases le_or_isPrefix_of_lt_append below with under | starts
    · exact Or.inl (under.trans (le_of_isPrefix (List.prefix_append _ _)))
    · rcases starts with ⟨rest, rfl⟩
      rw [append_lt_append_iff] at below
      cases rest with
      | nil =>
          left
          rw [List.append_nil]
          exact le_of_isPrefix (List.prefix_append _ _)
      | cons head rest =>
          rw [cons_lt_cons_iff] at below
          have under : head < next := by
            rcases below with smaller | ⟨-, short⟩
            · exact smaller
            · exact absurd short (List.not_lt_nil rest)
          rcases lt_trichotomy head item with smaller | same | larger
          · left
            exact ((append_lt_append_iff front).mpr
              (cons_lt_cons_iff.mpr (Or.inl smaller))).le
          · right
            rw [same]
            exact ⟨rest, by simp⟩
          · exact absurd under (covers.2 larger)
  · intro through
    rcases through with under | ⟨rest, rfl⟩
    · exact under.trans_lt less
    · rw [List.append_assoc]
      exact (append_lt_append_iff front).mpr
        (cons_lt_cons_iff.mpr (Or.inl covers.lt))

end

/-! ## The first key with a value -/

section

variable {κ : Type u} [LinearOrder κ] {β : Type v}
variable {value value' : κ → Option β} {wanted reached : κ → Prop}
variable {result : Option (κ × β)}

/-- The first wanted key with a value, with its value. -/
structure IsFirstLive (value : κ → Option β) (wanted : κ → Prop)
    (result : Option (κ × β)) : Prop where
  sound : ∀ key found, result = some (key, found) →
    wanted key ∧ value key = some found
  least : ∀ key found, wanted key → value key = some found →
    ∃ first ≤ key, ∃ found', result = some (first, found')

/-- Another reading of the keys, and of those alone that are reached, gives
the first key with a value exactly when all keys with values are reached and
the readings agree up to the first key with a value in either. -/
theorem IsFirstLive.iff_reads_alike
    {expected : Option (κ × β)}
    (first : IsFirstLive value wanted expected)
    (finds : IsFirstLive value' (fun key => wanted key ∧ reached key) result)
    (upward : ∀ key other, key ≤ other → reached key → reached other)
    (apart : ∀ key, wanted key → ¬ reached key → value key = none →
      value' key = none) :
    IsFirstLive value wanted result ↔
      (∀ key, wanted key → (value key).isSome = true → reached key) ∧
        ∀ key, wanted key →
          (∀ other < key, wanted other →
            value other = none ∧ value' other = none) →
          value' key = value key := by
  constructor
  · intro right
    constructor
    · intro key isWanted live
      rcases Option.isSome_iff_exists.mp live with ⟨found, live⟩
      rcases right.least key found isWanted live with
        ⟨least, below, found', same⟩
      exact upward least key below (finds.sound least found' same).1.2
    · intro key isWanted nothing
      have here : ∀ least ≤ key, ∀ found, result = some (least, found) →
          value key = some found ∧ value' key = some found := by
        intro least below found same
        have live := right.sound least found same
        rcases below.eq_or_lt with at_key | less
        · rw [← at_key]
          exact ⟨live.2, (finds.sound least found same).2⟩
        · rw [(nothing least less live.1).1] at live
          exact absurd live.2 (by simp)
      cases live : value key with
      | some found =>
          rcases right.least key found isWanted live with
            ⟨least, below, found', same⟩
          have both := here least below found' same
          rw [both.2, ← both.1, live]
      | none =>
          by_cases isReached : reached key
          · rw [Option.eq_none_iff_forall_ne_some]
            intro found shown
            rcases finds.least key found ⟨isWanted, isReached⟩ shown with
              ⟨least, below, found', same⟩
            have both := here least below found' same
            exact absurd (live.symm.trans both.1) (by simp)
          · exact apart key isWanted isReached live
  · rintro ⟨reaches, alike⟩
    have dead : ∀ key, wanted key →
        (∀ least found, expected = some (least, found) → key < least) →
          value key = none := by
      intro key isWanted before
      rw [Option.eq_none_iff_forall_ne_some]
      intro found live
      rcases first.least key found isWanted live with
        ⟨least, below, found', same⟩
      exact absurd (before least found' same) below.not_gt
    have dead' : ∀ bound, (∀ other < bound, wanted other →
        value other = none) → (∀ least found,
          result = some (least, found) → bound ≤ least) →
          ∀ other < bound, wanted other →
            value other = none ∧ value' other = none := by
      intro bound nothing above other less isWanted
      refine ⟨nothing other less isWanted, ?_⟩
      by_cases isReached : reached other
      · rw [Option.eq_none_iff_forall_ne_some]
        intro found shown
        rcases finds.least other found ⟨isWanted, isReached⟩ shown with
          ⟨least, below, found', same⟩
        exact absurd (below.trans_lt less) (above least found' same).not_gt
      · exact apart other isWanted isReached (nothing other less isWanted)
    have notBefore : ∀ key found, result = some (key, found) →
        ¬ ∀ least found', expected = some (least, found') → key < least := by
      intro key found same before
      have here := finds.sound key found same
      have read := alike key here.1.1 (dead' key
        (fun other less isWanted => dead other isWanted
          fun least found' same' => less.trans (before least found' same'))
        fun least found' same' => by
          rw [same, Option.some.injEq, Prod.mk.injEq] at same'
          exact same'.1.le)
      rw [dead key here.1.1 before, here.2] at read
      exact absurd read (by simp)
    cases same : expected with
    | none =>
        rw [same] at first notBefore
        cases result with
        | none => exact first
        | some item =>
            exact absurd (fun _ _ none => absurd none (by simp))
              (notBefore item.1 item.2 rfl)
    | some item =>
        have live := first.sound item.1 item.2 same
        have isReached := reaches item.1 live.1 (by rw [live.2]; rfl)
        have above : ∀ least found, result = some (least, found) →
            item.1 ≤ least := by
          intro least found found_eq
          by_contra below
          apply notBefore least found found_eq
          intro other found' same'
          rw [same, Option.some.injEq] at same'
          rw [same'] at below
          exact not_le.mp below
        have read := alike item.1 live.1 (dead' item.1
          (fun other less isWanted => dead other isWanted
            fun least found same' => by
              rw [same, Option.some.injEq] at same'
              rw [same'] at less
              exact less) above)
        rw [live.2] at read
        rcases finds.least item.1 item.2 ⟨live.1, isReached⟩ read with
          ⟨least, below, found, same'⟩
        have here : item.1 = least :=
          le_antisymm (above least found same') below
        have shown := (finds.sound least found same').2
        rw [← here, read, Option.some.injEq] at shown
        rw [same', ← here, ← shown]
        rw [same] at first
        exact first

end

end KeyOrder
