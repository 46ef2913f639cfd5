import RexHunter.Lib.JsonRoundTrip
import RexHunter.Lib.Table

set_option autoImplicit false

/-! # The texts of a value

A text spells a value if its tokens are those `json.dumps` writes: space and the escapes are free.
`json.loads` reads every such text as the value, unless the value is too deep or has a number that
is too long, and then it reads none of them. An object is spelled with its members in any order, so
at the end what is said of an object is what is said of its members. -/

section Spelling

variable [PyRuntime]

/-- The text is JSON for the value, each member of an object once. -/
structure Json.Spells (v : Json) (s : PyStr) : Prop where
  noMark : s.head? ≠ some (Fin.ofNat _ 0xFEFF)
  tokens : lex 0 s = v.tokens

theorem spells_write (v : Json) : v.Spells v.write where
  noMark := by
    intro hhead
    have hascii := List.all_eq_true.1 (isAscii_write v) _ (List.mem_of_mem_head? hhead)
    exact absurd hascii (by decide)
  tokens := by
    have hlex := lex_write v [] (fun _ hc => nomatch hc)
    rw [List.append_nil] at hlex
    exact hlex.trans (List.append_nil _)

theorem loads_spelled {v : Json} {s : PyStr} (hs : v.Spells s)
    (h : v.fault PyRuntime.recursionLimit = none) : Json.loads s = .ok v.reread := by
  have hread := readTokens_value v [] [] PyRuntime.recursionLimit rfl h
  rw [List.append_nil] at hread
  unfold Json.loads
  rw [if_neg hs.noMark, hs.tokens, hread]
  rfl

/-! ## Values with text keys -/

mutual

/-- Every key in the value is a text. -/
def Json.textKeys : Json → Bool
  | .arr items => textKeysItems items
  | .obj entries => textKeysEntries entries
  | _ => true
termination_by structural v => v

def Json.textKeysItems : List Json → Bool
  | [] => true
  | v :: vs => v.textKeys && textKeysItems vs
termination_by structural vs => vs

def Json.textKeysEntries : List (Key × Json) → Bool
  | [] => true
  | (.str _, v) :: es => v.textKeys && textKeysEntries es
  | _ :: _ => false
termination_by structural es => es

end

omit [PyRuntime] in
theorem textKeysEntries_set {d : Dict} (s : PyStr) {v : Json}
    (hd : Json.textKeysEntries d = true) (hv : v.textKeys = true) :
    Json.textKeysEntries (Dict.set d (.str s) v) = true := by
  induction d with
  | nil => simp [Dict.set, Json.textKeysEntries, hv]
  | cons e d ih =>
      obtain ⟨k, w⟩ := e
      cases k with
      | str key =>
          simp only [Json.textKeysEntries, Bool.and_eq_true] at hd
          unfold Dict.set
          by_cases hkey : (Key.str key).same (.str s) = true
          · rw [if_pos hkey]
            simp [Json.textKeysEntries, hv, hd.2]
          · rw [if_neg hkey]
            simp [Json.textKeysEntries, hd.1, ih hd.2]
      | int | float | bool | null => cases hd

mutual

theorem textKeys_reread : ∀ v : Json, v.reread.textKeys = true
  | .null => rfl
  | .bool _ => rfl
  | .int _ => rfl
  | .float .nan => rfl
  | .float (.inf _) => rfl
  | .float (.finite _ _ _) => rfl
  | .str _ => rfl
  | .arr items => textKeys_rereadItems items
  | .obj entries => textKeys_rereadEntries entries [] rfl

theorem textKeys_rereadItems : ∀ items : List Json,
    Json.textKeysItems (Json.rereadItems items) = true
  | [] => rfl
  | v :: vs => by
      simp only [Json.rereadItems, Json.textKeysItems, textKeys_reread v,
        textKeys_rereadItems vs, Bool.and_self]

theorem textKeys_rereadEntries : ∀ (entries : List (Key × Json)) (read : Dict),
    Json.textKeysEntries read = true →
      Json.textKeysEntries (Json.rereadEntries read entries) = true
  | [], _, h => h
  | (k, v) :: es, _, h =>
      textKeys_rereadEntries es _ (textKeysEntries_set (joined k.text) h (textKeys_reread v))

end

/-! ## What cannot be read -/

/-- The machine stops with an error. -/
def Fails (st : ReadState) (ts : List Token) : Prop := ∃ e, readTokens st ts = .error e

theorem Fails.cons {st st' : ReadState} {t : Token} {ts : List Token}
    (hstep : readToken st t = .ok st') (h : Fails st' ts) : Fails st (t :: ts) := by
  obtain ⟨e, he⟩ := h
  exact ⟨e, (readTokens_cons ts hstep).trans he⟩

theorem fails_of_step {st : ReadState} {t : Token} {e : JsonError} (ts : List Token)
    (hstep : readToken st t = .error e) : Fails st (t :: ts) :=
  ⟨e, by simp only [readTokens, hstep]⟩

theorem intOfLiteral_fault {i : Int} (h : intFault i ≠ none) :
    intOfLiteral (intRepr i) = .error .valueError := by
  have hfilter : (intRepr i).filter isDigit = decimalDigits i.natAbs := by
    unfold intRepr
    rw [List.filter_append, List.filter_eq_self.2 (decimalDigits_all i.natAbs)]
    split <;> rfl
  have hsize : PyRuntime.maxStrDigits < (decimalDigits i.natAbs).length := by
    unfold intFault at h
    split at h
    · assumption
    · exact absurd rfl h
  unfold intOfLiteral
  rw [hfilter, if_pos hsize]

mutual

/-- **The machine does not read what has a fault.** -/
theorem readTokens_fails : ∀ (v : Json) (stack : List Ctx) (ts : List Token) (room : Nat),
    room + stack.length = PyRuntime.recursionLimit → v.textKeys = true → v.fault room ≠ none →
    Fails (.value stack) (v.tokens ++ ts)
  | .null, _, _, _, _, _, h => absurd rfl h
  | .bool _, _, _, _, _, _, h => absurd rfl h
  | .float _, _, _, _, _, _, h => absurd rfl h
  | .str _, _, _, _, _, _, h => absurd rfl h
  | .int i, stack, ts, room, _, _, h => by
      refine fails_of_step (e := .valueError) ts ?_
      show (match intOfLiteral (intRepr i) with
        | .ok i => Except.ok (close (.int i) stack)
        | .error e => .error e) = _
      rw [intOfLiteral_fault h]
  | .arr items, stack, ts, room, hroom, hkeys, h => by
      have htokens : (Json.arr items).tokens ++ ts
          = .lbracket :: (Json.tokensItems items ++ .rbracket :: ts) := by
        simp [Json.tokens]
      rw [htokens]
      by_cases hzero : room = 0
      · exact fails_of_step _ (if_neg (by omega))
      · have hitems : Json.faultItems (room - 1) items ≠ none := by
          simpa [Json.fault, hzero] using h
        have hfails := readTokens_failsItems items [] stack ts (room - 1)
          (by simp only [List.length_cons]; omega) hkeys hitems
        refine Fails.cons (enter_ok hroom hzero) ?_
        cases items with
        | nil => exact absurd rfl hitems
        | cons v vs =>
            unfold Fails at hfails ⊢
            cases vs with
            | nil =>
                rw [Json.tokensItems] at hfails ⊢
                rwa [readTokens_firstItem]
            | cons w vs =>
                rw [Json.tokensItems_cons, List.append_assoc] at hfails ⊢
                rwa [readTokens_firstItem]
  | .obj entries, stack, ts, room, hroom, hkeys, h => by
      have htokens : (Json.obj entries).tokens ++ ts
          = .lbrace :: (Json.tokensEntries entries ++ .rbrace :: ts) := by
        simp [Json.tokens]
      rw [htokens]
      by_cases hzero : room = 0
      · exact fails_of_step _ (if_neg (by omega))
      · have hentries : Json.faultEntries (room - 1) entries ≠ none := by
          simpa [Json.fault, hzero] using h
        have hfails := readTokens_failsEntries entries [] stack ts (room - 1) (by omega) hkeys
          hentries
        refine Fails.cons (enter_ok hroom hzero) ?_
        -- the first key is read like any other
        cases entries with
        | nil => exact absurd rfl hentries
        | cons e es => cases es <;> exact hfails

theorem readTokens_failsItems : ∀ (items read : List Json) (stack : List Ctx) (ts : List Token)
    (room : Nat), room + (Ctx.item read :: stack).length = PyRuntime.recursionLimit →
    Json.textKeysItems items = true → Json.faultItems room items ≠ none →
    Fails (.value (.item read :: stack)) (Json.tokensItems items ++ .rbracket :: ts)
  | [], _, _, _, _, _, _, h => absurd rfl h
  | [v], read, stack, ts, room, hroom, hkeys, h => by
      simp only [Json.textKeysItems, Bool.and_true] at hkeys
      refine readTokens_fails v (.item read :: stack) (.rbracket :: ts) room hroom hkeys ?_
      intro hv
      simp [Json.faultItems, hv] at h
  | v :: w :: vs, read, stack, ts, room, hroom, hkeys, h => by
      rw [Json.textKeysItems, Bool.and_eq_true] at hkeys
      rw [Json.tokensItems_cons, List.append_assoc, List.cons_append]
      by_cases hv : v.fault room = none
      · have hvs : Json.faultItems room (w :: vs) ≠ none := by
          rwa [Json.faultItems, hv] at h
        have hrest := readTokens_failsItems (w :: vs) (read ++ [v.reread]) stack ts room hroom
          hkeys.2 hvs
        have hcomma : readToken (close v.reread (.item read :: stack)) .comma
            = .ok (.value (.item (read ++ [v.reread]) :: stack)) := rfl
        unfold Fails
        rw [readTokens_value v (.item read :: stack) _ room hroom hv]
        exact Fails.cons hcomma hrest
      · exact readTokens_fails v (.item read :: stack) _ room hroom hkeys.1 hv

theorem readTokens_failsEntries : ∀ (entries : List (Key × Json)) (read : Dict) (stack : List Ctx)
    (ts : List Token) (room : Nat), room + stack.length + 1 = PyRuntime.recursionLimit →
    Json.textKeysEntries entries = true → Json.faultEntries room entries ≠ none →
    Fails (.nextKey read stack) (Json.tokensEntries entries ++ .rbrace :: ts)
  | [], _, _, _, _, _, _, h => absurd rfl h
  | [(.str key, v)], read, stack, ts, room, hroom, hkeys, h => by
      simp only [Json.textKeysEntries, Bool.and_true] at hkeys
      refine Fails.cons rfl (Fails.cons rfl ?_)
      refine readTokens_fails v (.entry read (joined key) :: stack) (.rbrace :: ts) room
        (by simp only [List.length_cons]; omega) hkeys ?_
      intro hv
      simp [Json.faultEntries, Key.fault, hv] at h
  | (.str key, v) :: e :: es, read, stack, ts, room, hroom, hkeys, h => by
      rw [Json.textKeysEntries, Bool.and_eq_true] at hkeys
      have htokens : Json.tokensEntries ((.str key, v) :: e :: es) ++ .rbrace :: ts
          = .str (joined key) :: .colon ::
            (v.tokens ++ .comma :: (Json.tokensEntries (e :: es) ++ .rbrace :: ts)) := by
        simp [Key.text]
      rw [htokens]
      refine Fails.cons rfl (Fails.cons rfl ?_)
      have hdepth : room + (Ctx.entry read (joined key) :: stack).length
          = PyRuntime.recursionLimit := by
        simp only [List.length_cons]
        omega
      by_cases hv : v.fault room = none
      · have hes : Json.faultEntries room (e :: es) ≠ none := by
          rw [Json.faultEntries, hv] at h
          exact h
        have hrest := readTokens_failsEntries (e :: es) (Dict.set read (.str (joined key)) v.reread)
          stack ts room hroom hkeys.2 hes
        have hcomma : readToken (close v.reread (.entry read (joined key) :: stack)) .comma
            = .ok (.nextKey (Dict.set read (.str (joined key)) v.reread) stack) := rfl
        unfold Fails
        rw [readTokens_value v (.entry read (joined key) :: stack) _ room hdepth hv]
        exact Fails.cons hcomma hrest
      · exact readTokens_fails v (.entry read (joined key) :: stack) _ room hdepth hkeys.1 hv
  | [(.int _, _)], _, _, _, _, _, hkeys, _ => nomatch hkeys
  | [(.float _, _)], _, _, _, _, _, hkeys, _ => nomatch hkeys
  | [(.bool _, _)], _, _, _, _, _, hkeys, _ => nomatch hkeys
  | [(.null, _)], _, _, _, _, _, hkeys, _ => nomatch hkeys
  | (.int _, _) :: _ :: _, _, _, _, _, _, hkeys, _ => nomatch hkeys
  | (.float _, _) :: _ :: _, _, _, _, _, _, hkeys, _ => nomatch hkeys
  | (.bool _, _) :: _ :: _, _, _, _, _, _, hkeys, _ => nomatch hkeys
  | (.null, _) :: _ :: _, _, _, _, _, _, hkeys, _ => nomatch hkeys

end

/-- **`json.loads` reads the texts of a value that has no fault, and of no other.** -/
theorem loads_spelled_iff {v : Json} {s : PyStr} (hs : v.Spells s) (hkeys : v.textKeys = true) :
    (∃ w, Json.loads s = .ok w) ↔ v.fault PyRuntime.recursionLimit = none := by
  constructor
  · rintro ⟨w, hw⟩
    by_contra hfault
    obtain ⟨e, he⟩ := readTokens_fails v [] [] PyRuntime.recursionLimit rfl hkeys hfault
    rw [List.append_nil] at he
    unfold Json.loads at hw
    rw [if_neg hs.noMark, hs.tokens, he] at hw
    cases hw
  · exact fun h => ⟨_, loads_spelled hs h⟩

end Spelling

/-! ## The members of an object -/

section Members

variable {d d' : Dict}

theorem Dict.Textual.perm (h : d.Textual) (hperm : d.Perm d') : d'.Textual where
  keys := fun e he => h.keys e (hperm.mem_iff.2 he)
  nodup := (hperm.map Prod.fst).nodup_iff.1 h.nodup

theorem Dict.Textual.get_iff (h : d.Textual) {key : PyStr} {v : Json} :
    d.get key = some v ↔ (.str key, v) ∈ d := by
  have hfind := fun e => Table.find_key_eq_some (k := Key.str key) (a := e) h.nodup
  unfold Dict.get
  constructor
  · intro hget
    split at hget
    · next e he =>
        obtain ⟨hmem, hkey⟩ := (hfind e).1 he
        cases hget
        rwa [← hkey]
    · cases hget
  · intro hmem
    rw [(hfind _).2 ⟨hmem, rfl⟩]

theorem Dict.Textual.get_perm (h : d.Textual) (hperm : d.Perm d') (key : PyStr) :
    d.get key = d'.get key := by
  ext v
  rw [h.get_iff, (h.perm hperm).get_iff, hperm.mem_iff]

/-- Objects with the same members are the same, up to their order. -/
theorem Dict.Textual.perm_of_get (h : d.Textual) (h' : d'.Textual)
    (hget : ∀ key, d.get key = d'.get key) : d.Perm d' := by
  refine (List.perm_ext_iff_of_nodup (List.Nodup.of_map _ h.nodup)
    (List.Nodup.of_map _ h'.nodup)).2 (fun e => ?_)
  obtain ⟨k, v⟩ := e
  constructor
  · intro hmem
    obtain ⟨s, rfl⟩ := h.keys _ hmem
    rwa [← h'.get_iff, ← hget, h.get_iff]
  · intro hmem
    obtain ⟨s, rfl⟩ := h'.keys _ hmem
    rwa [← h.get_iff, hget, h'.get_iff]

theorem Dict.Textual.update {entries : Dict} : ∀ {d : Dict}, d.Textual →
    (∀ e ∈ entries, ∃ s, e.1 = .str s) → (Dict.update d entries).Textual := by
  induction entries with
  | nil => exact fun h _ => h
  | cons e entries ih =>
      intro d h hentries
      obtain ⟨⟨s, hs⟩, hrest⟩ := List.forall_mem_cons.1 hentries
      have hset : (Dict.set d e.1 e.2).Textual := by
        rw [hs]
        exact h.set s e.2
      exact ih hset hrest

theorem Dict.mem_update {entries : Dict} {e : Key × Json} :
    ∀ {d : Dict}, (∀ e ∈ entries, ∃ s, e.1 = .str s) → e ∈ Dict.update d entries →
      e ∈ entries ∨ e ∈ d := by
  induction entries with
  | nil => exact fun _ he => Or.inr he
  | cons e' entries ih =>
      intro d hentries he
      obtain ⟨⟨s, hs⟩, hrest⟩ := List.forall_mem_cons.1 hentries
      rcases ih hrest he with he | he
      · exact Or.inl (List.mem_cons_of_mem _ he)
      · have hset : e ∈ Dict.set d e'.1 e'.2 := he
        rw [hs] at hset
        rcases Dict.mem_set hset with rfl | he
        · rw [← hs]
          exact Or.inl List.mem_cons_self
        · exact Or.inr he

theorem Dict.Textual.get_update {entries : Dict} (h : entries.Textual) (key : PyStr) :
    ∀ d : Dict, (Dict.update d entries).get key = (entries.get key).or (d.get key) := by
  induction entries with
  | nil => exact fun _ => rfl
  | cons e entries ih =>
      intro d
      have htail : Dict.Textual entries :=
        ⟨fun e' he' => h.keys e' (List.mem_cons_of_mem _ he'), (List.nodup_cons.1 h.nodup).2⟩
      obtain ⟨s, hs⟩ := h.keys e List.mem_cons_self
      show (Dict.update (Dict.set d e.1 e.2) entries).get key = _
      rw [ih htail, hs, Dict.get_set]
      by_cases hkey : s = key
      · have hnone : Dict.get entries key = none := by
          cases hget : Dict.get entries key with
          | none => rfl
          | some v =>
              refine absurd (List.mem_map.2 ⟨_, htail.get_iff.1 hget, ?_⟩)
                (List.nodup_cons.1 h.nodup).1
              rw [hs, hkey]
        rw [hnone, if_pos hkey]
        simp [Dict.get, hs, hkey]
      · rw [if_neg hkey]
        simp [Dict.get, hs, hkey]

/-! ### Values a reader takes -/

variable [PyRuntime]

theorem Dict.Canonical.perm (h : d.Canonical) (hperm : d.Perm d') : d'.Canonical where
  textual := h.textual.perm hperm
  keys := fun e he => h.keys e (hperm.mem_iff.2 he)
  values := fun e he => h.values e (hperm.mem_iff.2 he)

theorem Dict.Canonical.update (h : d.Canonical) (h' : d'.Canonical) :
    (Dict.update d d').Canonical where
  textual := h.textual.update h'.textual.keys
  keys := fun e he => (Dict.mem_update h'.textual.keys he).elim (h'.keys e) (h.keys e)
  values := fun e he => (Dict.mem_update h'.textual.keys he).elim (h'.values e) (h.values e)

theorem Dict.Canonical.reread (h : d.Canonical) : (Json.obj d).reread = .obj d :=
  congrArg Json.obj (@rereadEntries_eq _ d [] h)

/-- No text of the value holds a surrogate, no more containers than `depth` are in each other, and no
    int has more than `chars` characters. -/
structure Json.Readable (depth chars : Nat) (v : Json) : Prop where
  surrogateFree : v.surrogateFree = true
  fault : v.fault depth = none
  ints : v.intsWithin chars = true

theorem readable_iff {depth chars : Nat} {v : Json} : v.Readable depth chars ↔
    v.surrogateFree = true ∧ v.fault depth = none ∧ v.intsWithin chars = true :=
  ⟨fun h => ⟨h.surrogateFree, h.fault, h.ints⟩, fun h => ⟨h.1, h.2.1, h.2.2⟩⟩

theorem faultEntries_iff {room : Nat} : Json.faultEntries room d = none ↔
    ∀ e ∈ d, e.1.fault = none ∧ e.2.fault room = none := by
  induction d with
  | nil => exact ⟨fun _ _ he => (nomatch he), fun _ => rfl⟩
  | cons e d ih =>
      rw [List.forall_mem_cons, ← ih]
      obtain ⟨k, v⟩ := e
      cases hk : k.fault <;> cases hv : v.fault room <;> simp [Json.faultEntries, hk, hv]

omit [PyRuntime] in
theorem surrogateFreeEntries_iff : Json.surrogateFreeEntries d = true ↔
    ∀ e ∈ d, e.1.surrogateFree = true ∧ e.2.surrogateFree = true := by
  induction d with
  | nil => exact ⟨fun _ _ he => (nomatch he), fun _ => rfl⟩
  | cons e d ih =>
      rw [List.forall_mem_cons, ← ih]
      simp [Json.surrogateFreeEntries]

omit [PyRuntime] in
theorem intsWithinEntries_iff {chars : Nat} : Json.intsWithinEntries chars d = true ↔
    ∀ e ∈ d, e.2.intsWithin chars = true := by
  induction d with
  | nil => exact ⟨fun _ _ he => (nomatch he), fun _ => rfl⟩
  | cons e d ih =>
      rw [List.forall_mem_cons, ← ih]
      simp [Json.intsWithinEntries]

theorem readable_obj {depth chars : Nat} : (Json.obj d).Readable depth chars ↔ depth ≠ 0 ∧
    ∀ e ∈ d, e.1.surrogateFree = true ∧ e.1.fault = none ∧ e.2.Readable (depth - 1) chars := by
  have hfault : (Json.obj d).fault depth = none ↔
      depth ≠ 0 ∧ Json.faultEntries (depth - 1) d = none := by
    by_cases hdepth : depth = 0 <;> simp [Json.fault, hdepth]
  constructor
  · rintro ⟨hfree, hnone, hints⟩
    obtain ⟨hdepth, hentries⟩ := hfault.1 hnone
    refine ⟨hdepth, fun e he => ?_⟩
    have he₁ := surrogateFreeEntries_iff.1 hfree e he
    have he₂ := faultEntries_iff.1 hentries e he
    exact ⟨he₁.1, he₂.1, he₁.2, he₂.2, intsWithinEntries_iff.1 hints e he⟩
  · rintro ⟨hdepth, hmembers⟩
    refine ⟨surrogateFreeEntries_iff.2 (fun e he => ?_),
      hfault.2 ⟨hdepth, faultEntries_iff.2 (fun e he => ?_)⟩,
      intsWithinEntries_iff.2 (fun e he => (hmembers e he).2.2.ints)⟩
    · exact ⟨(hmembers e he).1, (hmembers e he).2.2.surrogateFree⟩
    · exact ⟨(hmembers e he).2.1, (hmembers e he).2.2.fault⟩

theorem readable_arr {depth chars : Nat} {items : List Json} :
    (Json.arr items).Readable depth chars ↔
      depth ≠ 0 ∧ ∀ v ∈ items, v.Readable (depth - 1) chars := by
  have hitems : ∀ room : Nat, (Json.surrogateFreeItems items = true ∧
      Json.faultItems room items = none ∧ Json.intsWithinItems chars items = true) ↔
      ∀ v ∈ items, v.Readable room chars := by
    intro room
    induction items with
    | nil => exact ⟨fun _ _ hv => (nomatch hv), fun _ => ⟨rfl, rfl, rfl⟩⟩
    | cons v vs ih =>
        rw [List.forall_mem_cons, ← ih]
        cases hfault : v.fault room with
        | some e => simp [Json.faultItems, hfault, readable_iff]
        | none =>
            simp only [Json.surrogateFreeItems, Json.faultItems, Json.intsWithinItems, hfault,
              readable_iff, Bool.and_eq_true]
            tauto
  have hfault : (Json.arr items).fault depth = none ↔
      depth ≠ 0 ∧ Json.faultItems (depth - 1) items = none := by
    by_cases hdepth : depth = 0 <;> simp [Json.fault, hdepth]
  rw [← hitems, readable_iff, hfault]
  show _ ∧ _ ∧ Json.intsWithinItems chars items = true ↔ _
  tauto

theorem Json.Readable.update {depth chars : Nat} (h : (Json.obj d).Readable depth chars)
    (h' : d'.Textual) (hread : (Json.obj d').Readable depth chars) :
    (Json.obj (Dict.update d d')).Readable depth chars := by
  rw [readable_obj] at h hread ⊢
  exact ⟨h.1, fun e he => (Dict.mem_update h'.keys he).elim (hread.2 e) (h.2 e)⟩

theorem Json.Readable.perm {depth chars : Nat} (h : (Json.obj d).Readable depth chars)
    (hperm : d.Perm d') : (Json.obj d').Readable depth chars := by
  rw [readable_obj] at h ⊢
  exact ⟨h.1, fun e he => h.2 e (hperm.mem_iff.2 he)⟩

/-- An int with few characters has few digits. -/
theorem intFault_of_length {i : Int} (h : (intRepr i).length ≤ PyRuntime.maxStrDigits) :
    intFault i = none := by
  unfold intRepr at h
  rw [List.length_append] at h
  exact if_neg (by omega)

/-- A reader that takes as many characters of an int as `int` takes digits takes a flat object of
    Unicode texts if it takes its ints. -/
theorem Dict.Flat.readable_iff (hflat : d.Flat) (hfree : Json.surrogateFreeEntries d = true)
    {depth : Nat} (hdepth : depth ≠ 0) : (Json.obj d).Readable depth PyRuntime.maxStrDigits ↔
      (Json.obj d).intsWithin PyRuntime.maxStrDigits = true := by
  refine ⟨Json.Readable.ints, fun hints => readable_obj.2 ⟨hdepth, fun e he => ?_⟩⟩
  have hwithin := intsWithinEntries_iff.1 hints e he
  obtain ⟨hkey, hvalue⟩ := surrogateFreeEntries_iff.1 hfree e he
  obtain ⟨key, hstr⟩ := hflat.textual.keys e he
  refine ⟨hkey, by rw [hstr]; rfl, hvalue, ?_, hwithin⟩
  have hscalar := hflat.scalar e he
  cases hv : e.2 with
  | int i =>
      rw [hv] at hwithin
      exact intFault_of_length (of_decide_eq_true hwithin)
  | null | bool | str => rfl
  | float | arr | obj =>
      rw [hv] at hscalar
      cases hscalar

/-- A flat object is not too deep. -/
theorem Dict.Flat.fault_ne {depth : Nat} (hdepth : depth ≠ 0) : ∀ {d : Dict}, d.Flat →
    (Json.obj d).fault depth ≠ some .recursionError := by
  have hentries : ∀ d : Dict, (∀ e ∈ d, ∃ s, e.1 = .str s) → (∀ e ∈ d, e.2.isScalar = true) →
      Json.faultEntries (depth - 1) d ≠ some .recursionError := by
    intro d
    induction d with
    | nil => exact fun _ _ => nofun
    | cons e d ih =>
        intro hkeys hscalars
        obtain ⟨⟨s, hs⟩, hkeys'⟩ := List.forall_mem_cons.1 hkeys
        obtain ⟨hscalar, hscalars'⟩ := List.forall_mem_cons.1 hscalars
        obtain ⟨k, v⟩ := e
        simp only at hs hscalar
        subst hs
        have hvalue : v.fault (depth - 1) ≠ some .recursionError := by
          cases v with
          | int i => simp [Json.fault, intFault]
          | null | bool | str => exact nofun
          | float | arr | obj => cases hscalar
        cases hv : v.fault (depth - 1) with
        | some e => simpa [Json.faultEntries, Key.fault, hv] using hvalue
        | none => simpa [Json.faultEntries, Key.fault, hv] using ih hkeys' hscalars'
  intro d hflat
  simpa [Json.fault, hdepth] using hentries d hflat.textual.keys hflat.scalar

end Members
