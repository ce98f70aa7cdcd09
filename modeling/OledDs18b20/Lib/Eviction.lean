import OledDs18b20.Lib.Window

/-! A store of fixed size that writes each sample over one value it holds, in no
particular order. It keeps the last samples as long as it gives up the oldest. -/
namespace OledDs18b20.Lib.Eviction

variable {α : Type*} {n : ℕ} {blank sample evicted : α} {samples held held' : List α}

/-- The last `n` samples, or all if there are fewer. -/
def recent (n : ℕ) (samples : List α) : List α := samples.drop (samples.length - n)

/-- The last `n` values of `n` blanks followed by the samples. -/
def window (n : ℕ) (blank : α) (samples : List α) : List α :=
  (List.replicate n blank ++ samples).drop samples.length

theorem window_eq (n : ℕ) (blank : α) (samples : List α) :
    window n blank samples =
      List.replicate (n - samples.length) blank ++ recent n samples := by
  rw [window, List.drop_append, List.drop_replicate, List.length_replicate]
  rfl

theorem window_concat (n : ℕ) (blank : α) (samples : List α) (sample : α) :
    window n blank (samples ++ [sample]) = Window.push (window n blank samples) sample := by
  have hrun (earlier : List α) :
      window n blank earlier = earlier.foldl Window.push (List.replicate n blank) :=
    (Window.foldl_push _ _).symm
  rw [hrun, hrun, List.foldl_append]
  rfl

theorem length_window (n : ℕ) (blank : α) (samples : List α) :
    (window n blank samples).length = n := by
  rw [window, List.length_drop, List.length_append, List.length_replicate]
  omega

theorem recent_subperm (hheld : held.Perm (window n blank samples)) :
    (recent n samples).Subperm held := by
  have hsuffix : (recent n samples).Sublist (window n blank samples) := by
    rw [window_eq]
    exact List.sublist_append_right _ _
  exact hsuffix.subperm.trans hheld.symm.subperm

theorem perm_window_concat (hheld : held.Perm (window n blank samples))
    (hreplaced : (evicted :: held').Perm (sample :: held))
    (holdest : (window n blank samples).head? = some evicted) :
    held'.Perm (window n blank (samples ++ [sample])) := by
  obtain ⟨rest, hrest⟩ := List.head?_eq_some_iff.mp holdest
  rw [hrest] at hheld
  rw [window_concat, hrest]
  have hswap : (evicted :: held').Perm (evicted :: sample :: rest) :=
    (hreplaced.trans (hheld.cons sample)).trans (List.Perm.swap evicted sample rest)
  exact hswap.cons_inv.trans (List.perm_append_singleton sample rest).symm

section Counted
variable [DecidableEq α]

/-- Blanks left in the window are its oldest values. -/
theorem count_recent_concat {oldest : α} {rest : List α}
    (hwindow : window n blank samples = oldest :: rest) (hne : oldest ≠ evicted) :
    (recent n (samples ++ [sample])).count evicted =
      (window n blank (samples ++ [sample])).count evicted := by
  rw [window_eq n blank (samples ++ [sample]), List.count_append, List.count_replicate,
    List.length_append, List.length_singleton]
  by_cases hfull : n ≤ samples.length + 1
  · rw [Nat.sub_eq_zero_of_le hfull, ite_self, Nat.zero_add]
  · obtain ⟨blanks, hblanks⟩ : ∃ blanks, n - samples.length = blanks + 1 :=
      ⟨n - samples.length - 1, by omega⟩
    rw [window_eq, hblanks, List.replicate_succ, List.cons_append, List.cons.injEq] at hwindow
    rw [hwindow.1, if_neg (by simpa using hne), Nat.zero_add]

theorem oldest_of_recent_subperm (hn : 0 < n) (hheld : held.Perm (window n blank samples))
    (hreplaced : (evicted :: held').Perm (sample :: held))
    (hrecent : (recent n (samples ++ [sample])).Subperm held') :
    (window n blank samples).head? = some evicted := by
  have hlength := length_window n blank samples
  obtain ⟨oldest, rest, hwindow⟩ := List.exists_cons_of_length_pos (hlength.symm ▸ hn)
  rw [hwindow, List.head?_cons, Option.some.injEq]
  by_contra hne
  have hkept := hrecent.count_le evicted
  have hcells := hreplaced.count_eq evicted
  rw [count_recent_concat hwindow hne, window_concat, hwindow] at hkept
  rw [List.count_cons_self, List.count_cons, hheld.count_eq, hwindow,
    List.count_cons_of_ne hne] at hcells
  rw [Window.push, List.cons_append, List.tail_cons, List.count_append, List.count_singleton]
    at hkept
  omega

/-- The last samples are all held after one more is recorded exactly when it was written
over the oldest one. -/
theorem recent_subperm_iff (hn : 0 < n) (hheld : held.Perm (window n blank samples))
    (hreplaced : (evicted :: held').Perm (sample :: held)) :
    (recent n (samples ++ [sample])).Subperm held' ↔
      (window n blank samples).head? = some evicted := by
  constructor
  · exact oldest_of_recent_subperm hn hheld hreplaced
  · intro holdest
    exact recent_subperm (perm_window_concat hheld hreplaced holdest)

end Counted

end OledDs18b20.Lib.Eviction
