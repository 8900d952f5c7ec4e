import Rustrak.DataTable.Query

/-!
# Writing tokens

What is quoted and joined by spaces is taken apart again into the same tokens
(`tokenize_join`), and what is joined at a separator it does not hold is split again
(`splitAt_join`, `splitDots_join`).
-/

namespace Rustrak.DataTable

variable {c : UInt16} {current rest token piece : Text}

/-! ## One code unit -/

theorem tokenizeFrom_other (hquote : c ≠ quote) (hspace : c ≠ space) :
    tokenizeFrom (c :: rest) current false = tokenizeFrom rest (current ++ [c]) false := by
  cases rest <;> simp [tokenizeFrom, hquote, hspace]

theorem tokenizeFrom_space :
    tokenizeFrom (space :: rest) current false =
      pushCurrent current (tokenizeFrom rest [] false) := by
  have hne : space ≠ quote := by decide
  cases rest <;> simp [tokenizeFrom, hne]

theorem tokenizeFrom_open :
    tokenizeFrom (quote :: rest) current false = tokenizeFrom rest current true := by
  cases rest <;> simp [tokenizeFrom]

theorem tokenizeFrom_close :
    tokenizeFrom (quote :: rest) current true = tokenizeFrom rest current false := by
  have hne : quote ≠ backslash := by decide
  cases rest <;> simp [tokenizeFrom, hne]

theorem tokenizeFrom_quoted (hquote : c ≠ quote) (hbackslash : c ≠ backslash) :
    tokenizeFrom (c :: rest) current true = tokenizeFrom rest (current ++ [c]) true := by
  cases rest <;> simp [tokenizeFrom, hquote, hbackslash]

theorem tokenizeFrom_escape (h : c = quote ∨ c = backslash) :
    tokenizeFrom (backslash :: c :: rest) current true =
      tokenizeFrom rest (current ++ [c]) true := by
  simp [tokenizeFrom, h]

/-! ## Quoting -/

/-- Escaped inside quotes, every code unit is read as itself. -/
theorem tokenizeFrom_escaped (value : Text) :
    tokenizeFrom (escaped value ++ rest) current true =
      tokenizeFrom rest (current ++ value) true := by
  induction value generalizing current with
  | nil => rw [List.append_nil]; rfl
  | cons c value ih =>
      have hhead : tokenizeFrom (escaped (c :: value) ++ rest) current true =
          tokenizeFrom (escaped value ++ rest) (current ++ [c]) true := by
        rw [escaped, List.flatMap_cons, List.append_assoc, ← escaped]
        split_ifs with hbackslash hquote
        · rw [hbackslash]
          exact tokenizeFrom_escape (.inr rfl)
        · rw [hquote]
          exact tokenizeFrom_escape (.inl rfl)
        · exact tokenizeFrom_quoted hquote hbackslash
      rw [hhead, ih, List.append_assoc, List.singleton_append]

/-- A text outside quotes that holds neither a quote nor a space. -/
theorem tokenizeFrom_plain (h : ∀ c ∈ piece, c ≠ quote ∧ c ≠ space) :
    tokenizeFrom (piece ++ rest) current false = tokenizeFrom rest (current ++ piece) false := by
  induction piece generalizing current with
  | nil => rw [List.append_nil]; rfl
  | cons c piece ih =>
      obtain ⟨hquote, hspace⟩ := h c List.mem_cons_self
      rw [List.cons_append, tokenizeFrom_other hquote hspace,
        ih fun d hd => h d (List.mem_cons_of_mem c hd), List.append_assoc,
        List.singleton_append]

/-- A piece of text is read as these code units of a token. -/
def Writes (piece token : Text) : Prop :=
  ∀ current rest, tokenizeFrom (piece ++ rest) current false =
    tokenizeFrom rest (current ++ token) false

theorem Writes.plain (h : ∀ c ∈ piece, c ≠ quote ∧ c ≠ space) : Writes piece piece :=
  fun _ _ => tokenizeFrom_plain h

theorem Writes.append {piece' token' : Text} (h : Writes piece token)
    (h' : Writes piece' token') : Writes (piece ++ piece') (token ++ token') := by
  intro current rest
  rw [List.append_assoc, h, h', List.append_assoc]

theorem isSpace_space : isSpace space = true := by decide

theorem writes_quoted (value : Text) : Writes (quoted value) value := by
  unfold quoted
  split_ifs with hneeds
  · intro current rest
    rw [quoteValue, List.cons_append, tokenizeFrom_open, List.append_assoc, tokenizeFrom_escaped,
      List.singleton_append, tokenizeFrom_close]
  · apply Writes.plain
    intro c hc
    simp only [needsQuoting, List.any_eq_true, Bool.or_eq_true, beq_iff_eq, not_exists,
      not_and, not_or] at hneeds
    obtain ⟨⟨hspace, hquote⟩, -⟩ := hneeds c hc
    refine ⟨hquote, ?_⟩
    rintro rfl
    exact hspace isSpace_space

/-- Tokens that are written one after another are read again. -/
theorem tokenize_join {pieces tokens : List Text} (h : List.Forall₂ Writes pieces tokens)
    (hne : ∀ token ∈ tokens, token ≠ []) :
    tokenize (joinWith [space] pieces) = tokens := by
  have hpush : ∀ {token : Text} (others : List Text), token ≠ [] →
      pushCurrent token others = token :: others := by
    intro token others htoken
    rw [pushCurrent, if_neg (by simpa using htoken)]
  induction h with
  | nil => rfl
  | @cons piece token pieces tokens hwrites hrest ih =>
      have htoken := hne token List.mem_cons_self
      have htail := ih fun token htoken => hne token (List.mem_cons_of_mem _ htoken)
      have hread := hwrites []
      cases hrest with
      | nil =>
          have hone := hread []
          rw [List.append_nil, List.nil_append] at hone
          rw [tokenize, joinWith, hone, tokenizeFrom, hpush _ htoken]
      | cons hnext hlater =>
          rw [tokenize, joinWith, List.append_assoc, hread, List.singleton_append,
            tokenizeFrom_space, List.nil_append, hpush _ htoken]
          exact congrArg _ htail

/-! ## Splitting -/

theorem splitAt_of_not_mem {separator : UInt16} (h : separator ∉ piece) :
    splitAt separator (piece ++ rest) current = splitAt separator rest (current ++ piece) := by
  induction piece generalizing current with
  | nil => rw [List.append_nil]; rfl
  | cons c piece ih =>
      rw [List.mem_cons, not_or] at h
      rw [List.cons_append, splitAt, if_neg (Ne.symm h.1), ih h.2, List.append_assoc,
        List.singleton_append]

theorem splitAt_join {separator : UInt16} {pieces : List Text} (hne : pieces ≠ [])
    (h : ∀ piece ∈ pieces, separator ∉ piece) :
    splitAt separator (joinWith [separator] pieces) [] = pieces := by
  induction pieces with
  | nil => contradiction
  | cons piece pieces ih =>
      have hpiece := h piece List.mem_cons_self
      cases pieces with
      | nil =>
          have hone := @splitAt_of_not_mem [] [] piece separator hpiece
          rw [List.append_nil] at hone
          rw [joinWith, hone]
          rfl
      | cons next later =>
          rw [joinWith, List.append_assoc, splitAt_of_not_mem hpiece, List.singleton_append,
            splitAt, if_pos rfl, List.nil_append,
            ih (List.cons_ne_nil _ _) fun p hp => h p (List.mem_cons_of_mem _ hp)]

/-- What a split leaves holds no separator. -/
theorem not_mem_of_mem_splitAt {separator : UInt16} {text : Text}
    (hcurrent : separator ∉ current) (h : piece ∈ splitAt separator text current) :
    separator ∉ piece ∧ ∀ c ∈ piece, c ∈ current ∨ c ∈ text := by
  induction text generalizing current with
  | nil =>
      obtain rfl := List.mem_singleton.mp h
      exact ⟨hcurrent, fun c hc => .inl hc⟩
  | cons c text ih =>
      rw [splitAt] at h
      split_ifs at h with hc
      · rcases List.mem_cons.mp h with rfl | h
        · exact ⟨hcurrent, fun d hd => .inl hd⟩
        · obtain ⟨hpiece, hmem⟩ := ih List.not_mem_nil h
          refine ⟨hpiece, fun d hd => .inr (List.mem_cons_of_mem c ?_)⟩
          exact (hmem d hd).resolve_left List.not_mem_nil
      · have hnext : separator ∉ current ++ [c] := by
          rw [List.mem_append, List.mem_singleton, not_or]
          exact ⟨hcurrent, Ne.symm hc⟩
        obtain ⟨hpiece, hmem⟩ := ih hnext h
        refine ⟨hpiece, fun d hd => ?_⟩
        rcases hmem d hd with hd | hd
        · rcases List.mem_append.mp hd with hd | hd
          · exact .inl hd
          · exact .inr (List.mem_cons.mpr (.inl (List.mem_singleton.mp hd)))
        · exact .inr (List.mem_cons_of_mem c hd)

/-- No two dots stand together. -/
def Undotted : Text → Prop
  | c :: d :: rest => ¬(c = dot ∧ d = dot) ∧ Undotted (d :: rest)
  | _ => True

theorem splitDots_of_undotted (h : Undotted (piece ++ [dot])) :
    splitDots (piece ++ dot :: dot :: rest) current = (current ++ piece) :: splitDots rest [] := by
  induction piece generalizing current with
  | nil => simp [splitDots]
  | cons c piece ih =>
      have hcons : ∀ d more, piece ++ [dot] = d :: more → ¬(c = dot ∧ d = dot) := by
        intro d more heq
        rw [List.cons_append, heq] at h
        exact h.1
      have hrest : Undotted (piece ++ [dot]) := by
        rw [List.cons_append] at h
        cases piece with
        | nil => exact True.intro
        | cons d piece => exact h.2
      have hstep : splitDots (c :: (piece ++ dot :: dot :: rest)) current =
          splitDots (piece ++ dot :: dot :: rest) (current ++ [c]) := by
        cases piece with
        | nil => rw [List.nil_append, splitDots, if_neg (hcons dot [] rfl)]
        | cons d piece => rw [List.cons_append, splitDots, if_neg (hcons d _ rfl)]
      rw [List.cons_append, hstep, ih hrest, List.append_assoc, List.singleton_append]

theorem splitDots_last (h : Undotted (piece ++ [dot])) :
    splitDots piece current = [current ++ piece] := by
  induction piece generalizing current with
  | nil => simp [splitDots]
  | cons c piece ih =>
      cases piece with
      | nil => rfl
      | cons d piece =>
          rw [List.cons_append, List.cons_append] at h
          rw [splitDots, if_neg h.1, ih h.2, List.append_assoc, List.singleton_append]

end Rustrak.DataTable
