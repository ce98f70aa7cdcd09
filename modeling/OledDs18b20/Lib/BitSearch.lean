import Mathlib

/-! A search that finds the words of a population one by one, learning of each bit only
whether some candidate has a zero there and whether some has a one. Where both occur, the
first bits of the route say where to turn; past its end the zero is taken. The search
remembers the way to the last zero that was taken against a one, and starts over from
there with the one. -/
namespace OledDs18b20.Lib.BitSearch

/-- What is left of the words that begin with the given bit. -/
def after (bit : Bool) : List (List Bool) → List (List Bool)
  | [] => []
  | [] :: words => after bit words
  | (head :: rest) :: words =>
      if head = bit then rest :: after bit words else after bit words

def direction (words : List (List Bool)) (choice : Bool) : Bool :=
  if after false words = [] then true
  else if after true words = [] then false
  else choice

/-- The word of `n` bits that the search finds on a route. -/
def descend : ℕ → List Bool → List (List Bool) → List Bool
  | 0, _, _ => []
  | n + 1, route, words =>
      let bit := direction words (route.headD false)
      bit :: descend n route.tail (after bit words)

/-- The route of the next search; the empty one if no zero was taken against a one. -/
def reroute : ℕ → List Bool → List (List Bool) → List Bool
  | 0, _, _ => []
  | n + 1, route, words =>
      let bit := direction words (route.headD false)
      let later := reroute n route.tail (after bit words)
      if later ≠ [] then bit :: later
      else if bit = false ∧ after true words ≠ [] then [true]
      else []

/-- Searches one after the other: what they find, up to the last one. -/
inductive Tour (n : ℕ) (words : List (List Bool)) : List Bool → List (List Bool) → Prop where
  | last {route : List Bool} (done : reroute n route words = []) :
      Tour n words route [descend n route words]
  | next {route : List Bool} {found : List (List Bool)}
      (more : reroute n route words ≠ [])
      (rest : Tour n words (reroute n route words) found) :
      Tour n words route (descend n route words :: found)

/-- The words of `n` bits in the population, each once, in lexicographic order. -/
def enumerate : ℕ → List (List Bool) → List (List Bool)
  | 0, words => if words = [] then [] else [[]]
  | n + 1, words =>
      (enumerate n (after false words)).map (false :: ·) ++
        (enumerate n (after true words)).map (true :: ·)

theorem mem_after {bit : Bool} {rest : List Bool} {words : List (List Bool)} :
    rest ∈ after bit words ↔ bit :: rest ∈ words := by
  induction words with
  | nil => simp [after]
  | cons word words ih =>
      cases word with
      | nil => simp [after, ih]
      | cons head tail =>
          rw [after]
          split_ifs with hhead
          · simp [hhead, ih]
          · simp [ih, Ne.symm hhead]

def Uniform (n : ℕ) (words : List (List Bool)) : Prop := ∀ word ∈ words, word.length = n

theorem uniform_after {n : ℕ} {words : List (List Bool)} (h : Uniform (n + 1) words)
    (bit : Bool) : Uniform n (after bit words) := by
  intro rest hrest
  have hlength := h _ (mem_after.mp hrest)
  rwa [List.length_cons, Nat.add_right_cancel_iff] at hlength

theorem exists_after_ne_nil {n : ℕ} {words : List (List Bool)} (h : Uniform (n + 1) words)
    (hne : words ≠ []) : after false words ≠ [] ∨ after true words ≠ [] := by
  obtain ⟨word, hword⟩ := List.exists_mem_of_ne_nil words hne
  cases word with
  | nil => exact absurd (h _ hword) (Nat.succ_ne_zero n).symm
  | cons bit rest =>
      have hrest := List.ne_nil_of_mem (mem_after.mpr hword)
      cases bit with
      | false => exact .inl hrest
      | true => exact .inr hrest

theorem enumerate_empty (n : ℕ) : enumerate n [] = [] := by
  induction n with
  | zero => rfl
  | succ n ih => simp [enumerate, after, ih]

theorem mem_enumerate {n : ℕ} {words : List (List Bool)} (h : Uniform n words)
    {word : List Bool} : word ∈ enumerate n words ↔ word ∈ words := by
  induction n generalizing words word with
  | zero =>
      rw [enumerate]
      split_ifs with hempty
      · simp [hempty]
      · obtain ⟨some, hsome⟩ := List.exists_mem_of_ne_nil words hempty
        have hnil : some = [] := List.length_eq_zero_iff.mp (h some hsome)
        constructor
        · intro hword
          rw [List.mem_singleton.mp hword, ← hnil]
          exact hsome
        · intro hword
          rw [List.mem_singleton]
          exact List.length_eq_zero_iff.mp (h word hword)
  | succ n ih =>
      rw [enumerate, List.mem_append, List.mem_map, List.mem_map]
      constructor
      · rintro (⟨rest, hrest, rfl⟩ | ⟨rest, hrest, rfl⟩)
        · exact mem_after.mp ((ih (uniform_after h false)).mp hrest)
        · exact mem_after.mp ((ih (uniform_after h true)).mp hrest)
      · intro hword
        cases word with
        | nil => exact absurd (h _ hword) (Nat.succ_ne_zero n).symm
        | cons bit rest =>
            have hrest : rest ∈ enumerate n (after bit words) :=
              (ih (uniform_after h bit)).mpr (mem_after.mpr hword)
            cases bit with
            | false => exact .inl ⟨rest, hrest, rfl⟩
            | true => exact .inr ⟨rest, hrest, rfl⟩

/-- The words are found in lexicographic order, so none is found twice. -/
theorem enumerate_sorted (n : ℕ) (words : List (List Bool)) :
    (enumerate n words).Pairwise (List.Lex (· < ·)) := by
  induction n generalizing words with
  | zero =>
      rw [enumerate]
      split_ifs
      · exact List.Pairwise.nil
      · exact List.pairwise_singleton _ _
  | succ n ih =>
      rw [enumerate, List.pairwise_append, List.pairwise_map, List.pairwise_map]
      refine ⟨(ih _).imp List.Lex.cons, (ih _).imp List.Lex.cons, ?_⟩
      intro zero hzero one hone
      obtain ⟨zeroRest, _, rfl⟩ := List.mem_map.mp hzero
      obtain ⟨oneRest, _, rfl⟩ := List.mem_map.mp hone
      exact List.Lex.rel (by decide)

theorem after_direction_ne_nil {n : ℕ} {words : List (List Bool)} (h : Uniform (n + 1) words)
    (hne : words ≠ []) (choice : Bool) : after (direction words choice) words ≠ [] := by
  unfold direction
  split_ifs with hzeros hones
  · exact (exists_after_ne_nil h hne).resolve_left (not_not.mpr hzeros)
  · exact hzeros
  · cases choice with
    | false => exact hzeros
    | true => exact hones

theorem descend_mem {n : ℕ} {words : List (List Bool)} (h : Uniform n words)
    (hne : words ≠ []) (route : List Bool) : descend n route words ∈ words := by
  induction n generalizing words route with
  | zero =>
      obtain ⟨word, hword⟩ := List.exists_mem_of_ne_nil words hne
      have hnil : word = [] := List.length_eq_zero_iff.mp (h word hword)
      rw [descend, ← hnil]
      exact hword
  | succ n ih =>
      have hbranch := after_direction_ne_nil h hne (route.headD false)
      exact mem_after.mp (ih (uniform_after h _) hbranch route.tail)

theorem descend_follows {n : ℕ} {path route : List Bool} {words : List (List Bool)}
    (hroute : path <+: route) (hlength : path.length ≤ n)
    (hcandidate : ∃ rest, path ++ rest ∈ words) : path <+: descend n route words := by
  induction path generalizing n route words with
  | nil => exact List.nil_prefix
  | cons bit path ih =>
      obtain ⟨later, rfl⟩ := hroute
      obtain ⟨rest, hrest⟩ := hcandidate
      obtain ⟨count, rfl⟩ := Nat.exists_eq_add_of_le' (Nat.le_trans (Nat.le_add_left 1 _) hlength)
      have hbranch : path ++ rest ∈ after bit words := mem_after.mpr hrest
      have hne := List.ne_nil_of_mem hbranch
      have hbit : direction words bit = bit := by
        unfold direction
        cases bit with
        | false => rw [if_neg hne, ite_self]
        | true => rw [if_neg hne, ite_self]
      rw [descend]
      simp only [List.cons_append, List.headD_cons, List.tail_cons, hbit, List.cons_prefix_cons]
      exact ⟨trivial, ih (List.prefix_append _ _) (by simpa using hlength) ⟨rest, hbranch⟩⟩

/-- The next route follows the word that was found, up to a zero that becomes a one. -/
theorem reroute_eq {n : ℕ} {route : List Bool} {words : List (List Bool)}
    (h : reroute n route words ≠ []) :
    reroute n route words =
      (descend n route words).take ((reroute n route words).length - 1) ++ [true] := by
  induction n generalizing route words with
  | zero => exact absurd rfl h
  | succ n ih =>
      rw [reroute] at h ⊢
      rw [descend]
      split_ifs at h ⊢ with hlater hzero
      · have hroute := ih hlater
        obtain ⟨count, hcount⟩ := Nat.exists_eq_succ_of_ne_zero
          (mt List.length_eq_zero_iff.mp hlater)
        rw [hcount, Nat.succ_eq_add_one, Nat.add_sub_cancel] at hroute
        rw [List.length_cons, hcount, Nat.succ_eq_add_one, Nat.add_sub_cancel, List.take_succ_cons,
          List.cons_append, ← hroute]
      · rfl
      · exact absurd rfl h

/-- The candidates that are left on a path. -/
def afterAll (path : List Bool) (words : List (List Bool)) : List (List Bool) :=
  path.foldl (fun words bit => after bit words) words

theorem afterAll_concat (path : List Bool) (bit : Bool) (words : List (List Bool)) :
    afterAll (path ++ [bit]) words = after bit (afterAll path words) := by
  rw [afterAll, List.foldl_append]
  rfl

theorem mem_afterAll {path rest : List Bool} {words : List (List Bool)} :
    rest ∈ afterAll path words ↔ path ++ rest ∈ words := by
  induction path generalizing words with
  | nil => rfl
  | cons bit path ih =>
      change rest ∈ afterAll path (after bit words) ↔ _
      rw [ih, mem_after, List.cons_append]

theorem uniform_afterAll {n : ℕ} {words : List (List Bool)} (path : List Bool)
    (h : Uniform (path.length + n) words) : Uniform n (afterAll path words) := by
  intro rest hrest
  have hlength := h _ (mem_afterAll.mp hrest)
  rwa [List.length_append, Nat.add_left_cancel_iff] at hlength

/-! A tour of the zeros, then one of the ones. -/

section Branch
variable {n : ℕ} {words : List (List Bool)} {route : List Bool} {found : List (List Bool)}

/-- With no candidate on the other side, or on the side of the ones, the tour of a branch
is a tour of the whole. -/
theorem Tour.branch {bit choice : Bool} (h : Tour n (after bit words) route found)
    (hbit : direction words choice = bit)
    (hturn : ∀ choice', choice' = bit → direction words choice' = bit)
    (hlast : ¬(bit = false ∧ after true words ≠ [])) :
    Tour (n + 1) words (choice :: route) (found.map (bit :: ·)) := by
  induction h generalizing choice with
  | @last route done =>
      have hword : descend (n + 1) (choice :: route) words =
          bit :: descend n route (after bit words) := by
        simp [descend, hbit]
      rw [List.map_singleton, ← hword]
      apply Tour.last
      simp [reroute, hbit, done, hlast]
  | @next route found more rest ih =>
      have hword : descend (n + 1) (choice :: route) words =
          bit :: descend n route (after bit words) := by
        simp [descend, hbit]
      have hroute : reroute (n + 1) (choice :: route) words =
          bit :: reroute n route (after bit words) := by
        simp [reroute, hbit, more]
      rw [List.map_cons, ← hword]
      apply Tour.next
      · rw [hroute]
        exact List.cons_ne_nil _ _
      · rw [hroute]
        exact ih (hturn bit rfl)

theorem Tour.zeros_ones {later : List (List Bool)}
    (h : Tour n (after false words) route found)
    (hzeros : after false words ≠ []) (hones : after true words ≠ [])
    (hlater : Tour (n + 1) words [true] later) :
    Tour (n + 1) words (false :: route) (found.map (false :: ·) ++ later) := by
  have hdirection : direction words false = false := by
    simp [direction, hzeros, hones]
  induction h with
  | @last route done =>
      have hword : descend (n + 1) (false :: route) words =
          false :: descend n route (after false words) := by
        simp [descend, hdirection]
      have hroute : reroute (n + 1) (false :: route) words = [true] := by
        simp [reroute, hdirection, done, hones]
      rw [List.map_singleton, List.singleton_append, ← hword]
      apply Tour.next
      · rw [hroute]
        exact List.cons_ne_nil _ _
      · rw [hroute]
        exact hlater
  | @next route found more rest ih =>
      have hword : descend (n + 1) (false :: route) words =
          false :: descend n route (after false words) := by
        simp [descend, hdirection]
      have hroute : reroute (n + 1) (false :: route) words =
          false :: reroute n route (after false words) := by
        simp [reroute, hdirection, more]
      rw [List.map_cons, List.cons_append, ← hword]
      apply Tour.next
      · rw [hroute]
        exact List.cons_ne_nil _ _
      · rw [hroute]
        exact ih

end Branch

theorem Tour.of_false {n : ℕ} {words found : List (List Bool)}
    (h : Tour (n + 1) words [false] found) : Tour (n + 1) words [] found := by
  cases h with
  | last done => exact Tour.last done
  | next more rest => exact Tour.next more rest

/-- From the empty route, the searches find every word of the population once. -/
theorem tour_enumerate {n : ℕ} {words : List (List Bool)} (h : Uniform n words)
    (hne : words ≠ []) : Tour n words [] (enumerate n words) := by
  induction n generalizing words with
  | zero =>
      rw [enumerate, if_neg hne]
      exact Tour.last rfl
  | succ n ih =>
      apply Tour.of_false
      rw [enumerate]
      by_cases hzeros : after false words = []
      · have hones : after true words ≠ [] :=
          (exists_after_ne_nil h hne).resolve_left (not_not.mpr hzeros)
        rw [hzeros, enumerate_empty, List.map_nil, List.nil_append]
        apply Tour.branch (ih (uniform_after h true) hones)
        · simp [direction, hzeros]
        · simp [direction, hzeros]
        · simp
      · have htour := ih (uniform_after h false) hzeros
        by_cases hones : after true words = []
        · rw [hones, enumerate_empty, List.map_nil, List.append_nil]
          apply Tour.branch htour
          · simp [direction, hzeros, hones]
          · simp [direction, hzeros, hones]
          · simp [hones]
        · apply Tour.zeros_ones htour hzeros hones
          apply Tour.branch (ih (uniform_after h true) hones)
          · simp [direction, hzeros, hones]
          · simp [direction, hzeros, hones]
          · simp

/-- From any other route, the searches find the words from some place on. -/
theorem exists_tour {n : ℕ} {words : List (List Bool)} (h : Uniform n words)
    (hne : words ≠ []) (route : List Bool) :
    ∃ found, found <:+ enumerate n words ∧ Tour n words route found := by
  induction n generalizing words route with
  | zero =>
      rw [enumerate, if_neg hne]
      exact ⟨[[]], List.suffix_refl _, Tour.last rfl⟩
  | succ n ih =>
      obtain ⟨choice, later, hroute⟩ : ∃ choice later,
          ∀ found, Tour (n + 1) words (choice :: later) found → Tour (n + 1) words route found := by
        cases route with
        | nil => exact ⟨false, [], fun _ => Tour.of_false⟩
        | cons choice later => exact ⟨choice, later, fun _ => id⟩
      rw [enumerate]
      cases hbit : direction words choice with
      | true =>
          have hones : after true words ≠ [] := by
            rw [← hbit]
            exact after_direction_ne_nil h hne choice
          obtain ⟨found, hsuffix, htour⟩ := ih (uniform_after h true) hones later
          refine ⟨found.map (true :: ·), ?_, hroute _ (htour.branch hbit ?_ (by simp))⟩
          · exact (hsuffix.map _).trans (List.suffix_append _ _)
          · simp [direction, hones]
      | false =>
          have hzeros : after false words ≠ [] := by
            rw [← hbit]
            exact after_direction_ne_nil h hne choice
          obtain ⟨found, hsuffix, htour⟩ := ih (uniform_after h false) hzeros later
          by_cases hones : after true words = []
          · rw [hones, enumerate_empty, List.map_nil, List.append_nil]
            refine ⟨found.map (false :: ·), hsuffix.map _, hroute _ (htour.branch hbit ?_ ?_)⟩
            · simp [direction, hzeros]
            · simp [hones]
          · have hchoice : choice = false := by
              simpa [direction, hzeros, hones] using hbit
            rw [hchoice] at hroute
            have hlater : Tour (n + 1) words [true]
                ((enumerate n (after true words)).map (true :: ·)) := by
              apply Tour.branch (tour_enumerate (uniform_after h true) hones)
              · simp [direction, hzeros, hones]
              · simp [direction, hzeros, hones]
              · simp
            refine ⟨_, ?_, hroute _ (htour.zeros_ones hzeros hones hlater)⟩
            obtain ⟨before, hbefore⟩ := hsuffix
            refine ⟨before.map (false :: ·), ?_⟩
            rw [← List.append_assoc, ← List.map_append, hbefore]

end OledDs18b20.Lib.BitSearch
