import TonWallet.Send.Routes

/-!
# What is sent is what was shown

The values are put into the routes as they are, and taken out again percent-decoded: once
on the way to the confirmation, twice between it and the wallet.

* `carries_confirmed_iff`: a confirmed payment is sent as it was shown exactly if its destination
  and its comment are not empty and have no `&`, `#`, `%`, `/` or `?`; the confirmation opens for a
  link as the link says exactly if the link has an amount, and an address and a text without `&`,
  `#` and `%`.
-/

namespace TonWallet.Send

open Encoding Storage

/-- Neither a separator of queries nor an escape. -/
def Clean (s : Text) : Prop := ampersand ∉ s ∧ hash ∉ s ∧ percent ∉ s

/-- A text that a placeholder of a path can stand for, and that is no part of anything else. -/
def Plain (s : Text) : Prop := Clean s ∧ Capturable s ∧ questionMark ∉ s

instance (s : Text) : Decidable (Clean s) := inferInstanceAs (Decidable (_ ∧ _))

instance (s : Text) : Decidable (Plain s) := by
  unfold Plain Capturable
  infer_instance

/-! ## Values that are carried -/

theorem longToString_plain (n : BitVec 64) : Plain (longToString n) := by
  have hchars : ∀ c ∈ longToString n, c = Json.minus ∨ Json.isDigit c = true := by
    intro c hc
    rw [longToString, Json.printNumber] at hc
    split at hc
    · exact (List.mem_cons.mp hc).imp_right (Json.isDigit_of_mem_printNat c)
    · exact .inr (Json.isDigit_of_mem_printNat c hc)
  have hne : longToString n ≠ [] := by
    rw [longToString, Json.printNumber]
    split
    · simp
    · exact Json.printNat_ne_nil _
  have hnot : ∀ c : Char16, c ≠ Json.minus → Json.isDigit c = false → c ∉ longToString n := by
    intro c hm hd hc
    rcases hchars c hc with h | h
    · exact hm h
    · rw [hd] at h
      cases h
  exact ⟨⟨hnot _ (by decide) (by decide), hnot _ (by decide) (by decide),
    hnot _ (by decide) (by decide)⟩, ⟨hne, hnot _ (by decide) (by decide)⟩,
    hnot _ (by decide) (by decide)⟩

/-- A name of an argument. -/
def IsName (s : Text) : Prop := ampersand ∉ s ∧ hash ∉ s ∧ equals ∉ s

instance (s : Text) : Decidable (IsName s) := inferInstanceAs (Decidable (_ ∧ _))

/-- Values without separators are read as they were written. -/
theorem queryParameter_clean {path : Text} {ps : List (Text × Text)}
    (hpath : questionMark ∉ path ∧ hash ∉ path) (hnames : (ps.map (·.1)).Nodup)
    (hname : ∀ n ∈ ps.map (·.1), IsName n) (hclean : ∀ v ∈ ps.map (·.2), Clean v)
    {p : Text × Text} (hp : p ∈ ps) : queryParameter p.1 (route path ps) = some p.2 := by
  have ha : ampersand ≠ equals := by decide
  have hh : hash ≠ equals := by decide
  rw [queryParameter_route hpath hnames ?_ hp,
    percentDecode_of_not_mem (hclean _ (List.mem_map_of_mem hp)).2.2]
  intro p hp
  have hn := hname p.1 (List.mem_map_of_mem hp)
  have hv := hclean p.2 (List.mem_map_of_mem hp)
  simp [segmentOf, hn.1, hn.2.1, hn.2.2, hv.1, hv.2.1, ha, hh]

/-- The names of what is sent. -/
def paymentNames : List Text := [text "destination", text "amount", text "comment"]

theorem paymentNames_ok : paymentNames.Nodup ∧ ∀ n ∈ paymentNames, IsName n := by decide

theorem paymentNames_hash : hash ∉ text "destination" ∧ hash ∉ text "amount" ∧
    ampersand ∉ text "comment" ∧ hash ∉ text "comment" := by
  decide

/-- The query of what is sent. -/
def paymentQuery (destination amount comment : Text) : List (Text × Text) :=
  [(text "destination", destination), (text "amount", amount), (text "comment", comment)]

theorem paymentQuery_names (destination amount comment : Text) :
    (paymentQuery destination amount comment).map (·.1) = paymentNames := rfl

theorem lockDestination_path : questionMark ∉ lockDestination ∧ hash ∉ lockDestination := by decide

/-- The lock screen gets values without separators as they are. -/
theorem lockEntry_route {destination amount comment : Text} (hd : Clean destination)
    (ha : Clean amount) (hc : Clean comment) :
    lockEntry (route lockDestination (paymentQuery destination amount comment))
      = some ⟨destination, amount, some comment⟩ := by
  have hvalues : ∀ v ∈ (paymentQuery destination amount comment).map (·.2), Clean v := by
    change ∀ v ∈ [destination, amount, comment], Clean v
    simp only [List.forall_mem_cons]
    exact ⟨hd, ha, hc, fun _ h => nomatch h⟩
  have hnames := paymentQuery_names destination amount comment
  have hparameter : ∀ p ∈ paymentQuery destination amount comment, queryParameter p.1
      (route lockDestination (paymentQuery destination amount comment)) = some p.2 :=
    fun p hp => queryParameter_clean lockDestination_path (hnames ▸ paymentNames_ok.1)
      (hnames ▸ paymentNames_ok.2) hvalues hp
  rw [paymentQuery] at hparameter ⊢
  simp only [List.forall_mem_cons] at hparameter
  rw [lockEntry, pathOf_route lockDestination_path, if_pos rfl, hparameter.1, hparameter.2.1,
    hparameter.2.2.1]
  rfl

theorem onSuccess_eq (l : LockEntry) : l.onSuccess = sendPendingPath ++
    weave sendPendingLiterals [l.destination, l.amount, template l.comment] := by
  simp [LockEntry.onSuccess, sendPendingPath, sendPendingLiterals, weave]

theorem sendPending_literals :
    (questionMark ∉ sendPendingPath ∧ hash ∉ sendPendingPath ∧ slash ∉ sendPendingPath) ∧
      ∀ l ∈ sendPendingLiterals, l.head? = some ampersand ∧ questionMark ∉ l ∧ hash ∉ l ∧
        slash ∉ l := by
  decide

/-- The pending screen gets plain values as they are. -/
theorem sendPendingEntry_onSuccess {destination amount comment : Text} (hd : Plain destination)
    (ha : Plain amount) (hc : Plain comment) :
    sendPendingEntry (LockEntry.onSuccess ⟨destination, amount, some comment⟩)
      = some ⟨destination, amount, some comment⟩ := by
  obtain ⟨hpre, hlit⟩ := sendPending_literals
  have hvs : ∀ v ∈ [destination, amount, comment], Plain v := by
    simp only [List.forall_mem_cons]
    exact ⟨hd, ha, hc, fun _ h => nomatch h⟩
  have hself : pathOf (LockEntry.onSuccess ⟨destination, amount, some comment⟩)
      = LockEntry.onSuccess ⟨destination, amount, some comment⟩ := by
    rw [pathOf_self, onSuccess_eq, List.mem_append, List.mem_append, not_or, not_or]
    refine ⟨⟨hpre.1, fun h => ?_⟩, ⟨hpre.2.1, fun h => ?_⟩⟩
    · rcases mem_weave h with ⟨l, hl, h⟩ | ⟨v, hv, h⟩
      · exact (hlit l hl).2.1 h
      · exact (hvs v hv).2.2 h
    · rcases mem_weave h with ⟨l, hl, h⟩ | ⟨v, hv, h⟩
      · exact (hlit l hl).2.2.1 h
      · exact (hvs v hv).1.2.1 h
  have hcaptures := captures_values (fun l hl => (hlit l hl).1) rfl (fun v hv => (hvs v hv).2.1)
    fun v hv => (hvs v hv).1.1
  rw [sendPendingEntry, hself, onSuccess_eq, matchPath, if_pos (List.prefix_append ..),
    List.drop_left, template, Option.getD_some, hcaptures]
  simp only [percentDecode_of_not_mem hd.1.2.2, percentDecode_of_not_mem ha.1.2.2,
    percentDecode_of_not_mem hc.1.2.2]

/-! ## Values that are not carried -/

theorem length_paymentQuery (destination amount comment : Text) :
    (query (paymentQuery destination amount comment)).length
      = destination.length + amount.length + comment.length + 29 := by
  have hnames : (text "destination").length = 11 ∧ (text "amount").length = 6 ∧
      (text "comment").length = 7 := by decide
  simp only [query, paymentQuery, List.map_cons, List.map_nil, segmentOf,
    List.intercalate_cons_cons, List.intercalate_singleton, List.length_append, List.length_cons,
    List.length_nil, hnames]
  omega

theorem count_paymentQuery (destination amount comment : Text) :
    (query (paymentQuery destination amount comment)).count ampersand
      = destination.count ampersand + amount.count ampersand + comment.count ampersand + 2 := by
  have hnames : (text "destination").count ampersand = 0 ∧ (text "amount").count ampersand = 0 ∧
      (text "comment").count ampersand = 0 := by decide
  have hequals : (equals == ampersand) = false := by decide
  simp only [query, paymentQuery, List.map_cons, List.map_nil, segmentOf,
    List.intercalate_cons_cons, List.intercalate_singleton, List.count_append, List.count_cons,
    List.count_nil, hnames, hequals, beq_self_eq_true, if_true]
  simp
  omega

/-- What the lock screen gets, percent-decoded. -/
theorem lockEntry_spec {ps : List (Text × Text)} {l : LockEntry}
    (h : lockEntry (route lockDestination ps) = some l) :
    ∃ d a, rawParameter (text "destination") ((query ps).takeWhile (· ≠ hash)) = some d ∧
      rawParameter (text "amount") ((query ps).takeWhile (· ≠ hash)) = some a ∧
      l.destination = percentDecode d ∧ l.amount = percentDecode a ∧
      l.comment = (rawParameter (text "comment") ((query ps).takeWhile (· ≠ hash))).map
        percentDecode := by
  rw [lockEntry, pathOf_route lockDestination_path, if_pos rfl] at h
  simp only [queryParameter, queryOf_route lockDestination_path, Option.bind_eq_bind,
    Option.bind_eq_some_iff, Option.pure_def, Option.some.injEq] at h
  obtain ⟨d, hd, a, ha, rfl⟩ := h
  obtain ⟨d', hd', rfl⟩ := Option.map_eq_some_iff.mp hd
  obtain ⟨a', ha', rfl⟩ := Option.map_eq_some_iff.mp ha
  exact ⟨d', a', hd', ha', rfl, rfl, rfl⟩

/-- What the pending screen gets, percent-decoded. -/
theorem sendPendingEntry_spec {r : Text} {e : SendPendingEntry}
    (h : sendPendingEntry r = some e) :
    ∃ d a c, Capturable d ∧ Capturable a ∧ Capturable c ∧
      sendPendingPath ++ weave sendPendingLiterals [d, a, c] = pathOf r ∧
      e = ⟨percentDecode d, percentDecode a, some (percentDecode c)⟩ := by
  rw [sendPendingEntry] at h
  split at h
  · rename_i d a c hmatch
    obtain ⟨hbegin, hcaptures⟩ := Option.ite_none_right_eq_some.mp hmatch
    obtain ⟨hweave, -, hall⟩ := captures_spec hcaptures
    simp only [List.forall_mem_cons] at hall
    refine ⟨d, a, c, hall.1, hall.2.1, hall.2.2.1, ?_, (Option.some.inj h).symm⟩
    rw [hweave]
    exact List.prefix_iff_eq_append.mp hbegin
  · cases h

theorem length_weave (d a c : Text) :
    (weave sendPendingLiterals [d, a, c]).length = d.length + a.length + c.length + 17 := by
  have hlit : (text "&amount=").length = 8 ∧ (text "&comment=").length = 9 := by decide
  simp only [weave, sendPendingLiterals, List.flatten_cons, List.flatten_nil, List.append_nil,
    List.length_append, hlit]
  omega

/-- What the pending screen gets is not longer than what the lock screen got. It is as long only
if nothing is cut off. -/
theorem sendPendingEntry_length {l : LockEntry} {e : SendPendingEntry}
    (h : sendPendingEntry l.onSuccess = some e) :
    ∃ d a c, Capturable d ∧ Capturable a ∧ Capturable c ∧
      e = ⟨percentDecode d, percentDecode a, some (percentDecode c)⟩ ∧
      d.length + a.length + c.length
        ≤ l.destination.length + l.amount.length + (template l.comment).length ∧
      (d.length + a.length + c.length
        = l.destination.length + l.amount.length + (template l.comment).length →
        ∀ x ∈ [questionMark, slash], x ∉ l.destination ∧ x ∉ template l.comment) := by
  obtain ⟨d, a, c, hd, ha, hc, hpath, rfl⟩ := sendPendingEntry_spec h
  have hcut : pathOf l.onSuccess <+: l.onSuccess := List.takeWhile_prefix _
  have hlen := hcut.length_le
  have hroute := length_weave l.destination l.amount (template l.comment)
  have hweave := length_weave d a c
  rw [← hpath, onSuccess_eq, List.length_append, List.length_append] at hlen
  refine ⟨d, a, c, hd, ha, hc, rfl, by omega, fun heq => ?_⟩
  have hself : pathOf l.onSuccess = l.onSuccess := by
    refine hcut.eq_of_length ?_
    rw [← hpath, onSuccess_eq, List.length_append, List.length_append]
    omega
  have hslash : slash ∉ l.onSuccess := by
    rw [← hself, ← hpath, List.mem_append, not_or]
    refine ⟨sendPending_literals.1.2.2, fun hmem => ?_⟩
    rcases mem_weave hmem with ⟨m, hm, hmem⟩ | ⟨v, hv, hmem⟩
    · exact (sendPending_literals.2 m hm).2.2.2 hmem
    · have hvs : ∀ v ∈ [d, a, c], slash ∉ v := by
        simp only [List.forall_mem_cons]
        exact ⟨hd.2, ha.2, hc.2, fun _ h => nomatch h⟩
      exact hvs v hv hmem
  have hpart : ∀ x, x ∉ l.onSuccess → x ∉ l.destination ∧ x ∉ template l.comment := by
    intro x hx
    simp only [LockEntry.onSuccess, List.mem_append, not_or] at hx
    exact ⟨hx.1.1.1.1.2, hx.2⟩
  simp only [List.forall_mem_cons]
  exact ⟨hpart _ (pathOf_self.mp hself).1, hpart _ hslash, fun _ h => nomatch h⟩

/-- Where the comment is missing, the destination has a `#` and is cut off there: what stands before
the comment is cut off with it. What is left is shorter, even with `null` for a comment. -/
theorem length_of_missing_comment {destination amount comment d a : Text} (ha : Clean amount)
    (hd : rawParameter (text "destination")
      ((query (paymentQuery destination amount comment)).takeWhile (· ≠ hash)) = some d)
    (ha' : rawParameter (text "amount")
      ((query (paymentQuery destination amount comment)).takeWhile (· ≠ hash)) = some a)
    (hc : rawParameter (text "comment")
      ((query (paymentQuery destination amount comment)).takeWhile (· ≠ hash)) = none) :
    d.length + a.length + (text "null").length
      < destination.length + amount.length + comment.length := by
  have hequals : ∀ p ∈ paymentNames, equals ∉ p := fun p hp => (paymentNames_ok.2 p hp).2.2
  have hquery : query (paymentQuery destination amount comment)
      = segmentOf (text "destination", destination) ++
        ampersand :: (segmentOf (text "amount", amount) ++
          ampersand :: segmentOf (text "comment", comment)) := by
    simp [query, paymentQuery, List.intercalate_cons_cons]
  obtain ⟨hdn, han, hcn⟩ := paymentNames_hash
  have hmem : hash ∈ segmentOf (text "destination", destination) := by
    by_contra hnot
    have hq : hash ∉ segmentOf (text "destination", destination) ++
        ampersand :: segmentOf (text "amount", amount) := by
      have hne : hash ≠ ampersand ∧ hash ≠ equals := by decide
      have hamount : hash ∉ segmentOf (text "amount", amount) := by
        simp [segmentOf, han, ha.2.1, hne.2]
      simp only [List.mem_append, List.mem_cons, not_or]
      exact ⟨hnot, hne.1, hamount⟩
    obtain ⟨v, hv⟩ := rawParameter_last (p := (text "comment", comment)) hq hcn
    rw [List.append_assoc, List.cons_append, ← hquery] at hv
    rw [hv] at hc
    cases hc
  have hcut := length_takeWhile_lt (ampersand :: (segmentOf (text "amount", amount) ++
    ampersand :: segmentOf (text "comment", comment))) hmem
  rw [← hquery] at hcut
  have hnodup : [segmentOf (text "destination", d), segmentOf (text "amount", a)].Nodup := by
    simp only [List.nodup_cons, List.mem_singleton, List.not_mem_nil, not_false_eq_true,
      List.nodup_nil, and_true]
    intro he
    have hne : text "destination" ≠ text "amount" := by decide
    exact hne (congrArg Prod.fst (segment_inj (hequals _ (by simp [paymentNames]))
      (hequals _ (by simp [paymentNames])) he))
  have hsegs := (Segments.segments_length hnodup (by
    simp only [List.forall_mem_cons]
    exact ⟨rawParameter_spec (p := (_, d)) hd, rawParameter_spec (p := (_, a)) ha',
      List.forall_mem_nil _⟩)).1
  have hlengths : (text "destination").length = 11 ∧ (text "amount").length = 6 ∧
      (text "null").length = 4 := by decide
  simp only [List.map_cons, List.map_nil, List.sum_cons, List.sum_nil, length_segment,
    hlengths] at hsegs hcut ⊢
  omega

/-- With all three parameters nothing is longer than it was, and as long only if no separator is in
the destination or the comment. -/
theorem length_of_parameters {destination amount comment d a c : Text}
    (hqs : ∀ p ∈ paymentQuery d a c, rawParameter p.1
      ((query (paymentQuery destination amount comment)).takeWhile (· ≠ hash)) = some p.2) :
    d.length + a.length + c.length ≤ destination.length + amount.length + comment.length ∧
      (d.length + a.length + c.length = destination.length + amount.length + comment.length →
        (ampersand ∉ destination ∧ hash ∉ destination) ∧ ampersand ∉ comment ∧ hash ∉ comment) := by
  have hnames := paymentQuery_names d a c
  obtain ⟨hle, heq⟩ := rawParameters_length (by simp [paymentQuery])
    (hnames ▸ paymentNames_ok.1)
    (fun p hp => (paymentNames_ok.2 p.1 (hnames ▸ List.mem_map_of_mem hp)).2.2) hqs
  rw [length_paymentQuery, length_paymentQuery] at hle heq
  refine ⟨by omega, fun h => ?_⟩
  obtain ⟨hhash, hcount⟩ := heq (by omega)
  have hlen : (paymentQuery d a c).length = 3 := rfl
  rw [count_paymentQuery, hlen] at hcount
  have hpart : hash ∉ destination ∧ hash ∉ comment := by
    simp only [query, paymentQuery, segmentOf, List.map_cons, List.map_nil,
      List.intercalate_cons_cons, List.intercalate_singleton, List.mem_append, List.mem_cons,
      not_or] at hhash
    exact ⟨hhash.1.1.2.2, hhash.2.2.2.2⟩
  exact ⟨⟨List.count_eq_zero.mp (by omega), hpart.1⟩, List.count_eq_zero.mp (by omega), hpart.2⟩

/-- What the lock screen gets is not longer than what was confirmed. It is as long only if nothing
is cut off; the comment is missing only if the destination is cut off. -/
theorem lockEntry_length {destination amount comment : Text} {l : LockEntry} (ha : Clean amount)
    (h : lockEntry (route lockDestination (paymentQuery destination amount comment)) = some l) :
    (l.destination.length + l.amount.length + (template l.comment).length
      ≤ destination.length + amount.length + comment.length) ∧
      (l.destination.length + l.amount.length + (template l.comment).length
        = destination.length + amount.length + comment.length →
        (ampersand ∉ destination ∧ hash ∉ destination) ∧ ampersand ∉ comment ∧ hash ∉ comment) := by
  obtain ⟨d, a, hd, ha', hdl, hal, hcl⟩ := lockEntry_spec h
  have hdlen := length_percentDecode d
  have halen := length_percentDecode a
  rw [← hdl] at hdlen
  rw [← hal] at halen
  cases hc : rawParameter (text "comment")
      ((query (paymentQuery destination amount comment)).takeWhile (· ≠ hash)) with
  | none =>
    have hshort := length_of_missing_comment ha hd ha' hc
    have htemplate : template l.comment = text "null" := by rw [hcl, hc]; rfl
    rw [htemplate]
    exact ⟨by omega, fun h => by omega⟩
  | some c =>
    have hclen := length_percentDecode c
    have htemplate : template l.comment = percentDecode c := by rw [hcl, hc]; rfl
    obtain ⟨hle, heq⟩ := length_of_parameters (d := d) (a := a) (c := c) (by
      simp only [paymentQuery, List.forall_mem_cons]
      exact ⟨hd, ha', hc, List.forall_mem_nil _⟩)
    rw [htemplate]
    exact ⟨by omega, fun h => heq (by omega)⟩

/-- Exactly the payments with plain values are sent as they were shown. -/
theorem sent_iff {e : SendConfirmEntry} {comment : Text} {p : Payment}
    (hlen : comment.length ≤ commentCharactersSize) (hshown : e.shown comment = some p) :
    e.sent comment = some p ↔ Plain p.destination ∧ Plain p.comment := by
  obtain ⟨r, hr, rfl⟩ := Option.map_eq_some_iff.mp hshown
  have hamount := longToString_plain e.amount
  have hclick : e.click comment = some (route lockDestination (paymentQuery r.address
      (longToString e.amount) (if comment = [] then text " " else comment))) := by
    rw [SendConfirmEntry.click, if_neg (by omega), SendConfirmEntry.onConfirmClick, hr,
      Option.map_some, paymentQuery]
  have hcarried : Clean r.address → Clean comment → comment ≠ [] →
      (e.click comment).bind lockEntry
        = some ⟨r.address, longToString e.amount, some comment⟩ := by
    intro hd hc hne
    rw [hclick, if_neg hne, Option.bind_some, lockEntry_route hd hamount.1 hc]
  constructor
  · intro h
    obtain ⟨pending, hpending, hsend⟩ := Option.bind_eq_some_iff.mp h
    obtain ⟨l, hl, hpending⟩ := Option.bind_eq_some_iff.mp hpending
    obtain ⟨d, a, c, hd, ha, hc, rfl, hle, heq⟩ := sendPendingEntry_length hpending
    obtain ⟨n, hn, he⟩ := Option.map_eq_some_iff.mp hsend
    simp only [Option.getD_some, Payment.mk.injEq] at he
    obtain ⟨hdest, rfl, hcomment⟩ := he
    have hne : comment ≠ [] := fun h => hc.1 (percentDecode_eq_nil (hcomment.trans h))
    rw [hclick, if_neg hne, Option.bind_some] at hl
    obtain ⟨hle', heq'⟩ := lockEntry_length hamount.1 hl
    -- no hop makes the values longer, so that none has made them shorter
    have hdlen := length_percentDecode d
    have hclen := length_percentDecode c
    have halen := (length_longToString hn).trans (length_percentDecode a)
    rw [hdest] at hdlen
    rw [hcomment] at hclen
    obtain ⟨⟨hda, hdh⟩, hca, hch⟩ := heq' (by omega)
    have hdp := percent_not_mem_of_length (s := d) (by rw [hdest]; omega)
    have hcp := percent_not_mem_of_length (s := c) (by rw [hcomment]; omega)
    rw [hdest] at hdp
    rw [hcomment] at hcp
    have hl' := hcarried ⟨hda, hdh, hdp⟩ ⟨hca, hch, hcp⟩ hne
    rw [hclick, if_neg hne, Option.bind_some, hl] at hl'
    obtain rfl := Option.some.inj hl'
    have hpart := heq (by omega)
    have hq := hpart questionMark (List.mem_cons_self ..)
    have hs := hpart slash (List.mem_cons_of_mem _ (List.mem_singleton_self _))
    have hdne : r.address ≠ [] := fun h => hd.1 (percentDecode_eq_nil (hdest.trans h))
    exact ⟨⟨⟨hda, hdh, hdp⟩, ⟨hdne, hs.1⟩, hq.1⟩, ⟨⟨hca, hch, hcp⟩, ⟨hne, hs.2⟩, hq.2⟩⟩
  · rintro ⟨hd, hc⟩
    rw [SendConfirmEntry.sent, hcarried hd.1 hc.1 hc.2.1.1, Option.bind_some,
      sendPendingEntry_onSuccess hd hamount hc, Option.bind_some, SendPendingEntry.sendTon,
      stringToLong_longToString]
    rfl

/-! ## What the confirmation opens with -/

theorem printMember_clean {name value : Text} (hn : Clean name) (hv : Clean value) :
    Clean (Json.printMember (name, .string value)) := by
  have hunits : ampersand ∉ Json.escapeUnits ∧ hash ∉ Json.escapeUnits ∧
      percent ∉ Json.escapeUnits := by decide
  have hcolon : ampersand ≠ Json.colon ∧ hash ≠ Json.colon ∧ percent ≠ Json.colon := by decide
  have hnot : ∀ {x : Char16}, x ∉ Json.escapeUnits → x ≠ Json.colon → x ∉ name → x ∉ value →
      x ∉ Json.printMember (name, .string value) := by
    intro x hx hc hn hv h
    rw [Json.printMember, Json.print, List.mem_append, List.mem_cons] at h
    rcases h with h | h | h
    · exact hn (Json.mem_of_mem_printString hx h)
    · exact hc h
    · exact hv (Json.mem_of_mem_printString hx h)
  exact ⟨hnot hunits.1 hcolon.1 hn.1 hv.1, hnot hunits.2.1 hcolon.2.1 hn.2.1 hv.2.1,
    hnot hunits.2.2 hcolon.2.2 hn.2.2 hv.2.2⟩

/-- The JSON of a recipient has no separators if its address and its name have none. -/
theorem encodeToString_clean {r : TonSendRecipientModel} (ha : Clean r.address)
    (hd : ∀ s ∈ r.tonDnsAddress, Clean s) : Clean r.encodeToString := by
  have hnames : Clean (text "address") ∧ Clean (text "tonDnsAddress") := by decide
  have hbraces : Clean [Json.leftBrace] ∧ Clean [Json.rightBrace] ∧ Clean [Json.comma] := by decide
  have happend : ∀ {s t : Text}, Clean s → Clean t → Clean (s ++ t) := by
    intro s t hs ht
    simp only [Clean, List.mem_append, not_or]
    exact ⟨⟨hs.1, ht.1⟩, ⟨hs.2.1, ht.2.1⟩, hs.2.2, ht.2.2⟩
  have haddress := printMember_clean hnames.1 ha
  have htext : ∀ {members : Text}, Clean members →
      Clean (Json.leftBrace :: (members ++ [Json.rightBrace])) :=
    fun hm => happend hbraces.1 (happend hm hbraces.2.1)
  cases hs : r.tonDnsAddress with
  | none =>
    have hprint : r.encodeToString
        = Json.leftBrace :: (Json.printMember (text "address", .string r.address)
          ++ [Json.rightBrace]) := by
      simp [TonSendRecipientModel.encodeToString, TonSendRecipientModel.toJson,
        TonSendRecipientModel.fields, Json.present, hs, Json.print, Json.printMembers_eq]
    rw [hprint]
    exact htext haddress
  | some s =>
    have hprint : r.encodeToString
        = Json.leftBrace :: (Json.printMember (text "address", .string r.address) ++ [Json.comma]
          ++ Json.printMember (text "tonDnsAddress", .string s) ++ [Json.rightBrace]) := by
      simp [TonSendRecipientModel.encodeToString, TonSendRecipientModel.toJson,
        TonSendRecipientModel.fields, Json.present, hs, Json.print, Json.printMembers_eq,
        List.intercalate_cons_cons]
    rw [hprint]
    exact htext (happend (happend haddress hbraces.2.2) (printMember_clean hnames.2 (hd s hs)))

theorem stringToLong_clean {s : Text} {n : BitVec 64} (h : stringToLong s = some n) : Clean s := by
  obtain ⟨k, hk, -⟩ := Option.map_eq_some_iff.mp h
  exact ⟨not_mem_of_toLong (by decide) (by decide) (by decide) hk,
    not_mem_of_toLong (by decide) (by decide) (by decide) hk,
    not_mem_of_toLong (by decide) (by decide) (by decide) hk⟩

theorem confirmNames_ok :
    [text "wallet_address", text "amount", text "comment"].Nodup ∧
      ∀ n ∈ [text "wallet_address", text "amount", text "comment"], IsName n := by
  decide

theorem sendConfirmDestination_path :
    questionMark ∉ sendConfirmDestination ∧ hash ∉ sendConfirmDestination := by
  decide

theorem segment_clean {name value : Text} (hn : IsName name) (hv : Clean value) :
    ampersand ∉ segmentOf (name, value) ∧ hash ∉ segmentOf (name, value) ∧ equals ∉ name := by
  have hequals : ampersand ≠ equals ∧ hash ≠ equals := by decide
  simp [segmentOf, hn.1, hn.2.1, hn.2.2, hv.1, hv.2.1, hequals.1, hequals.2]

/-- The comment is what is left of the text of a link, or of `null`. -/
theorem DeeplinkModel.openConfirm_eq {d : DeeplinkModel} {n : BitVec 64}
    (ha : Clean d.walletAddress) (hn : d.amount.bind stringToLong = some n) :
    d.openConfirm = some {
      walletAddress := TonSendRecipientModel.encodeToString { address := d.walletAddress }
      amount := n
      comment := some (percentDecode (firstPart (template d.message))) } := by
  obtain ⟨a, hd, hn⟩ := Option.bind_eq_some_iff.mp hn
  have haddress : Clean (TonSendRecipientModel.encodeToString { address := d.walletAddress }) :=
    encodeToString_clean ha fun _ h => nomatch h
  have hamount := stringToLong_clean hn
  obtain ⟨hnd, hnames⟩ := confirmNames_ok
  simp only [List.forall_mem_cons] at hnames
  rw [openConfirm, sendConfirmRoute, hd, template, Option.getD_some]
  generalize TonSendRecipientModel.encodeToString { address := d.walletAddress } = j at haddress ⊢
  have hps : ∀ p ∈ [(text "wallet_address", j), (text "amount", a)],
      ampersand ∉ segmentOf p ∧ hash ∉ segmentOf p ∧ equals ∉ p.1 := by
    simp only [List.forall_mem_cons]
    exact ⟨segment_clean hnames.1 haddress, segment_clean hnames.2.1 hamount, fun _ h => nomatch h⟩
  have hnd' : (([(text "wallet_address", j), (text "amount", a)] ++
      [(text "comment", template d.message)]).map (·.1)).Nodup := hnd
  obtain ⟨hvalues, hlast⟩ := rawParameter_query hnd' hps hnames.2.2.1
  simp only [List.forall_mem_cons, List.cons_append, List.nil_append] at hvalues hlast
  rw [sendConfirmEntry, pathOf_route sendConfirmDestination_path, if_pos rfl]
  simp only [queryParameter, queryOf_route sendConfirmDestination_path, hvalues.1, hvalues.2.1,
    hlast, Option.map_some, percentDecode_of_not_mem haddress.2.2,
    percentDecode_of_not_mem hamount.2.2, Option.bind_eq_bind, Option.bind_some, Option.pure_def,
    hn]

/-- The confirmation opens with the address, the amount and the text of a link. -/
def DeeplinkModel.Carried (d : DeeplinkModel) : Prop :=
  ∃ e n, d.openConfirm = some e ∧ d.amount.bind stringToLong = some n ∧
    e.shown e.initialComment = some {
      destination := d.walletAddress, amount := n, comment := d.message.getD [] }

/-- Exactly the texts without separators are left whole. -/
theorem percentDecode_firstPart {s : Text} : percentDecode (firstPart s) = s ↔ Clean s := by
  constructor
  · intro h
    have hpart : firstPart s <+: s := (List.takeWhile_prefix _).trans (List.takeWhile_prefix _)
    have hdecode := length_percentDecode (firstPart s)
    have hlen := hpart.length_le
    rw [h] at hdecode
    have hself : firstPart s = s := hpart.eq_of_length (by omega)
    have hpercent := percent_not_mem_of_length (s := s) (by rw [← hself, h, hself])
    rw [hself] at h
    rw [h] at hpercent
    refine ⟨fun hmem => ?_, fun hmem => ?_, hpercent⟩
    · rw [← hself] at hmem
      simpa using List.mem_takeWhile_imp hmem
    · rw [← hself] at hmem
      simpa using List.mem_takeWhile_imp ((List.takeWhile_sublist _).subset hmem)
  · intro h
    rw [firstPart_of_not_mem h.1 h.2.1, percentDecode_of_not_mem h.2.2]

/-- The text of a recipient that is found in a text without a name. -/
def addressJson (address : Text) : Json.Value := .object [(text "address", .string address)]

theorem encodeToString_address (address : Text) :
    TonSendRecipientModel.encodeToString { address := address }
      = Json.print (addressJson address) := rfl

/-- No text of a recipient is lighter than the text of its address. -/
theorem total_address_le {s : Text} {r : TonSendRecipientModel}
    (h : TonSendRecipientModel.decodeFromString s = some r) :
    routeWeight.total (Json.print (addressJson r.address)) ≤ routeWeight.total s := by
  obtain ⟨v, hv, h⟩ := Option.bind_eq_some_iff.mp h
  have hle := routeWeight.total_print_le hv
  simp only [TonSendRecipientModel.ofJson, Option.bind_eq_bind, Option.bind_eq_some_iff,
    Option.pure_def, Option.some.injEq] at h
  obtain ⟨members, hmembers, address, haddress, _, -, rfl⟩ := h
  obtain ⟨hmembers, -⟩ := Option.filter_eq_some_iff.mp hmembers
  cases v <;> simp only [membersOfJson, reduceCtorEq, Option.some.injEq] at hmembers
  obtain rfl := hmembers
  obtain ⟨u, hu, hstring⟩ := Json.field_spec (Option.join_eq_some_iff.mp haddress)
  cases u <;> simp only [stringOfJson, reduceCtorEq, Option.some.injEq] at hstring
  obtain rfl := hstring
  have hmember := routeWeight.total_member_le hu
  rw [addressJson, routeWeight.total_object, List.map_singleton, List.intercalate_singleton]
  exact hmember.trans hle

/-- The separators in an address are in its text. -/
theorem clean_of_addressJson {address : Text} (h : Clean (Json.print (addressJson address))) :
    Clean address := by
  have hmem : ∀ {c : Char16}, Json.escape c = [c] → c ∈ address →
      c ∈ Json.print (addressJson address) := by
    intro c hc hmem
    have hself : c ∈ address.flatMap Json.escape :=
      List.mem_flatMap.mpr ⟨c, hmem, hc ▸ List.mem_singleton_self c⟩
    simp [addressJson, Json.print, Json.printMembers_eq, Json.printMember, Json.printString, hself]
  exact ⟨fun hc => h.1 (hmem rfl hc), fun hc => h.2.1 (hmem rfl hc),
    fun hc => h.2.2 (hmem rfl hc)⟩

/-- An address comes back out of the route of a link only if it has no separators: what is cut off
or decoded leaves less than the text of the address. -/
theorem clean_of_decoded {r : TonSendRecipientModel}
    (h : TonSendRecipientModel.decodeFromString
      (percentDecode (firstPart (Json.print (addressJson r.address)))) = some r) :
    Clean r.address := by
  have hle := total_address_le h
  have hdecode := total_percentDecode (firstPart (Json.print (addressJson r.address)))
  refine clean_of_addressJson ?_
  generalize Json.print (addressJson r.address) = j at hle hdecode
  obtain ⟨u, hu⟩ : firstPart j <+: j := (List.takeWhile_prefix _).trans (List.takeWhile_prefix _)
  have htotal : routeWeight.total j = routeWeight.total (firstPart j) + routeWeight.total u := by
    rw [← Json.Weight.total_append, hu]
  have hlen := routeWeight.length_le_total u
  obtain rfl := List.length_eq_zero_iff.mp (show u.length = 0 by omega)
  rw [List.append_nil] at hu
  refine percentDecode_firstPart.mp ?_
  rw [percentDecode_of_not_mem (List.count_eq_zero.mp (by omega)), hu]

/-- What the confirmation of a link gets for the recipient. -/
theorem DeeplinkModel.openConfirm_walletAddress {d : DeeplinkModel} {e : SendConfirmEntry}
    (h : d.openConfirm = some e) :
    e.walletAddress = percentDecode (firstPart (Json.print (addressJson d.walletAddress))) := by
  obtain ⟨-, hnames⟩ := confirmNames_ok
  have hname := hnames (text "wallet_address") (List.mem_cons_self ..)
  rw [openConfirm, sendConfirmRoute, sendConfirmEntry, pathOf_route sendConfirmDestination_path,
    if_pos rfl] at h
  simp only [queryParameter, queryOf_route sendConfirmDestination_path, Option.bind_eq_bind,
    Option.bind_eq_some_iff, Option.pure_def, Option.some.injEq] at h
  obtain ⟨w, hw, -, -, rfl⟩ := h
  have hraw := rawParameter_segment (Json.print (addressJson d.walletAddress))
    (q := ampersand :: query [(text "amount", template d.amount),
      (text "comment", template d.message)]) (fun c hc => (Option.some.inj hc).symm)
    hname.1 hname.2.1 hname.2.2
  have hquery : query [(text "wallet_address", TonSendRecipientModel.encodeToString
      { address := d.walletAddress }), (text "amount", template d.amount),
      (text "comment", template d.message)]
      = segmentOf (text "wallet_address", Json.print (addressJson d.walletAddress)) ++
        ampersand :: query [(text "amount", template d.amount),
          (text "comment", template d.message)] := by
    simp [query, encodeToString_address, List.intercalate_cons_cons]
  rw [hquery, hraw] at hw
  exact (Option.some.inj hw).symm

theorem DeeplinkModel.clean_of_shown {d : DeeplinkModel} {e : SendConfirmEntry} {p : Payment}
    {comment : Text} (h : d.openConfirm = some e) (hshown : e.shown comment = some p)
    (hp : p.destination = d.walletAddress) : Clean d.walletAddress := by
  obtain ⟨r, hr, rfl⟩ := Option.map_eq_some_iff.mp hshown
  rw [openConfirm_walletAddress h, ← hp] at hr
  exact hp ▸ clean_of_decoded hr

/-- Exactly the links with an amount, and an address and a text without separators, are carried. -/
theorem DeeplinkModel.carried_iff (d : DeeplinkModel) :
    d.Carried ↔ Clean d.walletAddress ∧ (d.amount.bind stringToLong).isSome ∧
      ∃ t, d.message = some t ∧ Clean t := by
  have hshown : ∀ {e : SendConfirmEntry} {n : BitVec 64}, Clean d.walletAddress →
      d.amount.bind stringToLong = some n → d.openConfirm = some e →
      e.shown e.initialComment = some {
        destination := d.walletAddress, amount := n
        comment := percentDecode (firstPart (template d.message)) } := by
    intro e n ha hn he
    rw [openConfirm_eq ha hn] at he
    obtain rfl := Option.some.inj he
    rw [SendConfirmEntry.shown, TonSendRecipientModel.decodeFromString_encodeToString]
    rfl
  constructor
  · rintro ⟨e, n, he, hn, h⟩
    have ha := clean_of_shown he h rfl
    rw [hshown ha hn he, Option.some.injEq, Payment.mk.injEq] at h
    refine ⟨ha, by rw [hn]; rfl, ?_⟩
    cases hm : d.message with
    | none =>
      rw [hm] at h
      have hnull : firstPart (text "null") ≠ [] := by decide
      exact absurd (percentDecode_eq_nil h.2.2) hnull
    | some t =>
      rw [hm] at h
      exact ⟨t, rfl, percentDecode_firstPart.mp h.2.2⟩
  · rintro ⟨ha, hsome, t, ht, hclean⟩
    obtain ⟨n, hn⟩ := Option.isSome_iff_exists.mp hsome
    have he := openConfirm_eq ha hn
    refine ⟨_, n, he, hn, ?_⟩
    rw [hshown ha hn he, ht]
    simp only [template, Option.getD_some, percentDecode_firstPart.mpr hclean]

/-- What was shown is sent, and what a link says is shown, exactly if the texts have no characters
that mean something in a route. -/
theorem carries_confirmed_iff (e : SendConfirmEntry) (comment : Text) (p : Payment)
    (d : DeeplinkModel) :
    (comment.length ≤ commentCharactersSize → e.shown comment = some p →
      (e.sent comment = some p ↔ Plain p.destination ∧ Plain p.comment)) ∧
      (d.Carried ↔ Clean d.walletAddress ∧ (d.amount.bind stringToLong).isSome ∧
        ∃ t, d.message = some t ∧ Clean t) :=
  ⟨fun hlen hshown => sent_iff hlen hshown, d.carried_iff⟩

/-- A recipient on the confirmation. -/
def exampleEntry : SendConfirmEntry where
  walletAddress := TonSendRecipientModel.encodeToString { address := text "EQAA" }
  amount := 7
  comment := none

/-- A question mark in a comment; a link with a text of two words. -/
theorem carries_confirmed_dinner :
    (exampleEntry.sent (text "dinner?") = some ⟨text "EQAA", 7, text "dinner?"⟩ ↔
        Plain (text "EQAA") ∧ Plain (text "dinner?")) ∧
      (DeeplinkModel.Carried ⟨text "EQAA", some (text "7"), some (text "for dinner")⟩ ↔
        Clean (text "EQAA") ∧ ((some (text "7")).bind stringToLong).isSome ∧
          ∃ t, some (text "for dinner") = some t ∧ Clean t) :=
  have h := carries_confirmed_iff exampleEntry (text "dinner?") ⟨text "EQAA", 7, text "dinner?"⟩
    ⟨text "EQAA", some (text "7"), some (text "for dinner")⟩
  ⟨h.1 (by decide) (by decide +kernel), h.2⟩

/-- Of `a&b`, only `a` is sent. -/
theorem ampersand_cuts_comment :
    ¬ ((∀ (e : SendConfirmEntry) (comment : Text) (p : Payment),
        comment.length ≤ commentCharactersSize → e.shown comment = some p →
          e.sent comment = some p) ∧
      ∀ d : DeeplinkModel, d.Carried) := by
  intro h
  have hsent := h.1 exampleEntry (text "a&b") ⟨text "EQAA", 7, text "a&b"⟩ (by decide)
    (by decide +kernel)
  have hcut : exampleEntry.sent (text "a&b") = some ⟨text "EQAA", 7, text "a"⟩ := by
    decide +kernel
  rw [hcut] at hsent
  revert hsent
  decide

end TonWallet.Send
