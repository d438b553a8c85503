import WasmBuild.Proofs.Readings

/-! A command line as the arguments that it is made of. Each option, with its value where it takes
one, and each token without an option does its part to the request at once, in order. A command
line is understood exactly when it falls into such arguments, and comes to the same request. -/

namespace WasmBuild.CommandLine

/-- What one option makes of a request, and the tokens in which it is written. -/
inductive Sets : Request → List Token → Request → Prop where
  | tied {r r' : Request} {t value : Token} {s : Setting}
      (ht : t.form = .long (.ofString s.name) (some value))
      (h : Reading.assign r s value = .ok r') : Sets r [t] r'
  | apart {r r' : Request} {t value : Token} {s : Setting}
      (ht : t.form = .long (.ofString s.name) none) (hvalue : value.isPlain = true)
      (h : Reading.assign r s value = .ok r') : Sets r [t, value] r'
  | switch {r r' : Request} {t : Token} {s : Switch}
      (ht : t.form = .long (.ofString s.name) none) (h : Reading.turnOn r s = .ok r') :
      Sets r [t] r'
  | cluster {r r' : Request} {t shorts : Token} {ss : List Switch}
      (ht : t.form = .cluster shorts) (hnumber : shorts.isNumber = false)
      (hss : switchesOf shorts = ss.map some) (h : ss.foldlM Reading.turnOn r = .ok r') :
      Sets r [t] r'

theorem Sets.preserves {P : Request → Prop} {r r' : Request} {ts : List Token} (h : Sets r ts r')
    (hassign : ∀ {r r' : Request} {s : Setting} {value : Token}, P r →
      Reading.assign r s value = .ok r' → P r')
    (hturnOn : ∀ {r r' : Request} {s : Switch}, P r → Reading.turnOn r s = .ok r' → P r')
    (hr : P r) : P r' := by
  cases h with
  | tied _ h => exact hassign hr h
  | apart _ _ h => exact hassign hr h
  | switch _ h => exact hturnOn hr h
  | @cluster _ _ _ ss _ _ hss h =>
    clear hss
    induction ss generalizing r with
    | nil =>
      cases h
      exact hr
    | cons s ss ih =>
      obtain ⟨r₁, hs, h⟩ := foldlM_cons_eq_ok.mp h
      exact ih (hturnOn hr hs) h

theorem Sets.tokens_cases {r r' : Request} {ts : List Token} (h : Sets r ts r') :
    ∃ t, t.isPlain = false ∧ t ≠ .ofString "--" ∧ ((ts = [t] ∧ t.awaitsValue = false) ∨
      ∃ value, ts = [t, value] ∧ t.awaitsValue = true ∧ value.isPlain = true) := by
  have hne {t : Token} (ht : t.form ≠ .separator) : t ≠ .ofString "--" := fun h =>
    ht (Token.form_separator_iff.mpr h)
  cases h with
  | @tied _ t _ _ ht =>
    exact ⟨t, by simp [Token.isPlain, ht], hne (by simp [ht]),
      .inl ⟨rfl, by simp [Token.awaitsValue, ht]⟩⟩
  | @apart _ t _ _ ht hvalue =>
    exact ⟨t, by simp [Token.isPlain, ht], hne (by simp [ht]),
      .inr ⟨_, rfl, Token.awaitsValue_setting ht, hvalue⟩⟩
  | @switch _ t _ ht =>
    exact ⟨t, by simp [Token.isPlain, ht], hne (by simp [ht]),
      .inl ⟨rfl, Token.awaitsValue_switch ht⟩⟩
  | @cluster _ t _ _ ht hnumber =>
    exact ⟨t, by simp [Token.isPlain, ht, hnumber], hne (by simp [ht]),
      .inl ⟨rfl, by simp [Token.awaitsValue, ht]⟩⟩

theorem Sets.not_separator {r r' : Request} {ts : List Token} (h : Sets r ts r') :
    ∀ t ∈ ts, t ≠ .ofString "--" := by
  obtain ⟨t, -, hne, ⟨rfl, -⟩ | ⟨value, rfl, -, hvalue⟩⟩ := h.tokens_cases
  · simpa using hne
  · simpa using ⟨hne, Token.ne_separator hvalue⟩

/-- What a command line makes of a request. Options are told from other tokens as long as no
separator has come. -/
inductive Reads : (options : Bool) → Request → List Token → Request → Prop where
  | done {options : Bool} {r : Request} : Reads options r [] r
  | option {r r' last : Request} {ts rest : List Token} (h : Sets r ts r')
      (hrest : Reads true r' rest last) : Reads true r (ts ++ rest) last
  | separator {r last : Request} {t : Token} {rest : List Token} (ht : t.form = .separator)
      (hrest : Reads false r rest last) : Reads true r (t :: rest) last
  | word {options : Bool} {r last : Request} {t : Token} {text : String} {rest : List Token}
      (ht : options = true → t.isPlain = true) (htext : t.text? = some text)
      (hrest : Reads options (r.receive text) rest last) : Reads options r (t :: rest) last

/-- Tokens that belong to no option, after one that asks for coverage or does not. -/
theorem reads_ignored {options : Bool} {r : Request} {texts : List String}
    (hr : r.coverage ≠ none)
    (h : options = true → ∀ s ∈ texts, (Token.ofString s).isPlain = true) :
    Reads options r (texts.map .ofString) { r with ignored := r.ignored ++ texts } := by
  induction texts generalizing r with
  | nil =>
    rw [List.append_nil]
    exact .done
  | cons s texts ih =>
    have hs (ho : options = true) : (Token.ofString s).isPlain = true := h ho s (by simp)
    have hreceive : r.receive s = { r with ignored := r.ignored ++ [s] } := if_neg hr
    have hrest := ih (r := { r with ignored := r.ignored ++ [s] }) hr
      fun ho s hs => h ho s (by simp [hs])
    rw [List.append_assoc, List.singleton_append] at hrest
    refine .word hs (Token.text?_ofString s) ?_
    rw [hreceive]
    exact hrest

namespace Reading

variable {q q' : Reading} {r r' last : Request} {t : Token} {rest tokens : List Token}

/-- An option is read to the end of its tokens, whatever comes after them. -/
theorem finish_of_sets {ts : List Token} (hq : q.Settles r) (h : Sets r ts r') :
    ∃ q' : Reading, q'.Settles r' ∧ ∀ rest, q.finish true (ts ++ rest) = q'.finish true rest := by
  cases h with
  | tied ht h =>
    refine ⟨_, hq.next (coverage_of_assign h), fun rest => ?_⟩
    rw [List.singleton_append, finish_option (by simp [ht]), takeOne, ht]
    dsimp only
    rw [takeLong_setting hq, h]
    rfl
  | apart ht hvalue h =>
    refine ⟨⟨r, .setting _ (some _), q.covered⟩, ⟨h, ?_⟩, fun rest => ?_⟩
    · rw [coverage_of_assign h]
      exact hq.covered
    · rw [List.cons_append, finish_option (by simp [ht]), takeOne, ht]
      dsimp only
      rw [takeLong_setting_none hq]
      dsimp only
      rw [List.singleton_append, finish_option (ne_separator_of_isPlain hvalue),
        takeOne_of_isPlain hvalue]
      rfl
  | switch ht h =>
    refine ⟨_, hq.next (coverage_of_turnOn h), fun rest => ?_⟩
    rw [List.singleton_append, finish_option (by simp [ht]), takeOne, ht]
    dsimp only
    rw [takeLong_switch hq, h]
    rfl
  | cluster ht hnumber hss h =>
    obtain ⟨q', hq', hsettles⟩ := takeCluster_of_turnOn hq hss h
    refine ⟨q', hsettles, fun rest => ?_⟩
    rw [List.singleton_append, finish_option (by simp [ht]), takeOne, ht]
    dsimp only
    rw [hnumber, if_neg Bool.false_ne_true, hq']

theorem finish_of_reads {options : Bool} {tokens : List Token}
    (h : Reads options r tokens last) (hq : q.Settles r) : q.finish options tokens = .ok last := by
  induction h generalizing q with
  | done => rw [finish_nil, hq.request]
  | option h _ ih =>
    obtain ⟨q', hq', hfinish⟩ := finish_of_sets hq h
    rw [hfinish]
    exact ih hq'
  | separator ht _ ih =>
    rw [finish_separator ht]
    exact ih hq
  | word ht htext _ ih =>
    obtain ⟨q', htake, hq'⟩ := take_text hq htext
    rw [finish_plain hq.not_awaiting ht, htake]
    exact ih hq'

theorem reads_plain {options : Bool} (hq : q.Settles r)
    (ht : options = true → t.isPlain = true) (h : q.finish options (t :: rest) = .ok last)
    (ih : ∀ (q : Reading) (r : Request), q.Settles r → q.finish options rest = .ok last →
      Reads options r rest last) :
    Reads options r (t :: rest) last := by
  rw [finish_plain hq.not_awaiting ht] at h
  cases htext : t.text? with
  | none =>
    split at h
    · next q' hq' => exact absurd h ((stuck_of_take htext hq').finish options rest)
    · cases h
  | some text =>
    obtain ⟨q', htake, hq'⟩ := take_text hq htext
    rw [htake] at h
    exact .word ht htext (ih q' _ hq' h)

theorem reads_after_separator {tokens : List Token} (hq : q.Settles r)
    (h : q.finish false tokens = .ok last) : Reads false r tokens last := by
  induction tokens generalizing q r with
  | nil =>
    rw [finish_nil, hq.request] at h
    cases h
    exact .done
  | cons t rest ih => exact reads_plain hq nofun h fun q r hq hrest => ih hq hrest

theorem map_next_eq_ok {x : Except Usage Request}
    (h : (x.map fun r' => (⟨r', .nothing, q.covered⟩ : Reading)) = .ok q') :
    ∃ r', x = .ok r' ∧ q' = ⟨r', .nothing, q.covered⟩ := by
  cases x with
  | error e => cases h
  | ok r' =>
    cases h
    exact ⟨r', rfl, rfl⟩

/-- An option that is taken does its part, or it waits for its value. -/
theorem takeOne_option (hq : q.Settles r) (hplain : t.isPlain = false) (ht : t.form ≠ .separator)
    (h : q.takeOne t = .ok q') :
    (∃ r', Sets r [t] r' ∧ q'.Settles r') ∨
      ∃ s : Setting, t.form = .long (.ofString s.name) none ∧
        q' = ⟨r, .setting s none, r.coverage.isSome⟩ := by
  rw [takeOne] at h
  unfold Token.isPlain at hplain
  cases hform : t.form with
  | separator => exact absurd hform ht
  | word => simp [hform] at hplain
  | cluster shorts =>
    have hnumber : shorts.isNumber = false := by simpa [hform] using hplain
    simp only [hform, hnumber, Bool.false_eq_true, if_false] at h
    obtain ⟨ss, r', hss, hfold, hq'⟩ := takeCluster_eq_ok hq h
    exact .inl ⟨r', .cluster hform hnumber hss hfold, hq'⟩
  | long name value =>
    simp only [hform] at h
    rcases takeLong_cases h with ⟨s, rfl⟩ | ⟨s, rfl, rfl⟩
    · cases value with
      | some value =>
        rw [takeLong_setting hq] at h
        obtain ⟨r', hr, rfl⟩ := map_next_eq_ok h
        exact .inl ⟨r', .tied hform hr, hq.next (coverage_of_assign hr)⟩
      | none =>
        rw [takeLong_setting_none hq, hq.covered] at h
        cases h
        exact .inr ⟨s, rfl, rfl⟩
    · rw [takeLong_switch hq] at h
      obtain ⟨r', hr, rfl⟩ := map_next_eq_ok h
      exact .inl ⟨r', .switch hform hr, hq.next (coverage_of_turnOn hr)⟩

theorem awaited_of_finish {s : Setting} {tokens : List Token}
    (h : finish ⟨r, .setting s none, r.coverage.isSome⟩ true tokens = .ok last) :
    ∃ value rest r', tokens = value :: rest ∧ value.isPlain = true ∧
      assign r s value = .ok r' ∧
      finish ⟨r, .setting s (some value), r.coverage.isSome⟩ true rest = .ok last := by
  have herror : settledRequest r (.setting s none) = .error .invalidValue := rfl
  cases tokens with
  | nil =>
    rw [finish_nil, herror] at h
    cases h
  | cons t rest =>
    by_cases ht : t.isPlain = true
    · rw [finish_option (ne_separator_of_isPlain ht), takeOne_of_isPlain ht] at h
      change finish ⟨r, .setting s (some t), r.coverage.isSome⟩ true rest = .ok last at h
      cases hr : assign r s t with
      | error e =>
        have hstuck : Stuck ⟨r, .setting s (some t), r.coverage.isSome⟩ := ⟨⟨e, hr⟩, fun _ => nofun⟩
        exact absurd h (hstuck.finish true rest)
      | ok r' => exact ⟨t, rest, r', rfl, ht, hr, h⟩
    replace ht : t.isPlain = false := by simpa using ht
    by_cases hseparator : t.form = .separator
    · rw [finish_separator hseparator] at h
      cases rest with
      | nil =>
        rw [finish_nil, herror] at h
        cases h
      | cons t' rest =>
        rw [finish_token] at h
        split at h
        · next q' hq' =>
          rcases take_cases hq' with ⟨tokens, hpending, -⟩ | ⟨r', hr', -⟩
          · cases hpending
          · cases hr'
        · cases h
    · rw [finish_option hseparator] at h
      split at h
      · next q' hq' => exact absurd hq' (takeOne_of_error herror ht hseparator)
      · cases h

theorem reads_of_finish {q : Reading} {r last : Request} {tokens : List Token} (hq : q.Settles r)
    (h : q.finish true tokens = .ok last) : Reads true r tokens last := by
  -- the value of an option may stand in the next token, so the induction is on the length
  induction hlength : tokens.length using Nat.strongRecOn generalizing tokens q r with
  | ind n ih =>
  cases tokens with
  | nil =>
    rw [finish_nil, hq.request] at h
    cases h
    exact .done
  | cons t rest =>
    have hrest (q' : Reading) (r' : Request) (hq' : q'.Settles r')
        (h : q'.finish true rest = .ok last) : Reads true r' rest last :=
      ih rest.length (by simp [← hlength]) hq' h rfl
    by_cases hplain : t.isPlain = true
    · exact reads_plain hq (fun _ => hplain) h hrest
    by_cases hseparator : t.form = .separator
    · rw [finish_separator hseparator] at h
      exact .separator hseparator (reads_after_separator hq h)
    replace hplain : t.isPlain = false := by simpa using hplain
    rw [finish_option hseparator] at h
    split at h
    · next q' hq' =>
      rcases takeOne_option hq hplain hseparator hq' with ⟨r', hsets, hr'⟩ | ⟨s, hform, rfl⟩
      · exact .option hsets (hrest q' r' hr' h)
      · obtain ⟨value, rest, r', rfl, hvalue, hr, hfinish⟩ := awaited_of_finish h
        have hsettles : Settles ⟨r, .setting s (some value), r.coverage.isSome⟩ r' :=
          ⟨hr, by rw [coverage_of_assign hr]⟩
        have hlt : rest.length < n := by
          rw [← hlength, List.length_cons, List.length_cons]
          omega
        have hlast := ih rest.length hlt hsettles hfinish rfl
        exact .option (.apart hform hvalue hr) hlast
    · cases h

end Reading

/-- A command line is understood exactly when its arguments are, one after the other. -/
theorem parse_eq_ok_iff {tokens : List Token} {r : Request} :
    parse tokens = .ok r ↔ Reads true .empty tokens r := by
  rw [Reading.parse_eq]
  constructor
  · exact Reading.reads_of_finish Reading.settles_start
  · exact fun h => Reading.finish_of_reads h Reading.settles_start

end WasmBuild.CommandLine
