import MarketFeed.Binance.Trade
import MarketFeed.Proofs.Json.Alike
import MarketFeed.Proofs.Json.Grammar

/-!
# MarketFeed.Proofs.Binance.Frames

What the frames of the trade stream are taken for.

* `carried`, `IsSkipped`, `Reports` — the documents that are passed over and those that report a
  trade, read off the members as they are written.
* `classified` — a frame is taken for what its document is.
* `frames_classified` — frames as texts: what each is taken for, and what makes no difference.
-/

namespace MarketFeed
namespace Binance
namespace Trade

open Json

/-! ## Documents -/

/-- The document within the wrapping of a combined stream, otherwise the document itself. -/
def carried (doc : Tree) : Tree := (doc.member? "data").getD doc

/-- The kind of event that a document names. -/
def kind? (p : Tree) : Option String := (p.member? "e").bind Tree.text?

/-- The answer to a request, or another kind of event. -/
def IsSkipped (p : Tree) : Prop :=
  (p.member? "result").isSome = true ∨ ∃ kind, kind? p = some kind ∧ kind ≠ "trade"

/-- A document reports a trade: each field is what the member of its name says. -/
structure Reports (p : Tree) (t : Trade) : Prop where
  noAnswer : p.member? "result" = none
  kind : kind? p = some "trade"
  eventTime : (p.member? "E").bind Tree.int64? = some t.eventTime
  symbol : (p.member? "s").bind Tree.text? = some t.symbol
  id : (p.member? "t").bind Tree.word64? = some t.id.toNat
  price : (p.member? "p").bind Tree.decimal? = some t.price
  quantity : (p.member? "q").bind Tree.decimal? = some t.quantity
  tradeTime : (p.member? "T").bind Tree.int64? = some t.tradeTime
  buyerIsMaker : (p.member? "m").bind Tree.bool? = some t.buyerIsMaker

/-- The names that are looked at. -/
def knownNames : List String := ["data", "result", "e", "E", "s", "t", "p", "q", "T", "m"]

/-- A document as a combined stream sends it. -/
def wrapped (stream : String) (doc : Tree) : Tree :=
  .object [(some "stream", .string (some stream)), (some "data", doc)]

/-! ## Outcomes -/

def IsDecodeError (r : Except VenueError (Option Trade)) : Prop :=
  ∃ what, r = .error (.decode what)

/-- Both give the same trade, both none, or both refuse the frame. -/
def SameOutcome (r r' : Except VenueError (Option Trade)) : Prop :=
  r = r' ∨ IsDecodeError r ∧ IsDecodeError r'

/-- What a document is taken for. -/
inductive Classified (p : Tree) : Except VenueError (Option Trade) → Prop
  | skipped (h : IsSkipped p) : Classified p (.ok none)
  | trade {t : Trade} (h : Reports p t) : Classified p (.ok (some t))
  | refused (hskipped : ¬IsSkipped p) (htrade : ∀ t, ¬Reports p t) (what : String) :
      Classified p (.error (.decode what))

section

variable {p p' : Tree} {t t' : Trade} {r r' : Except VenueError (Option Trade)}

theorem Reports.not_isSkipped (h : Reports p t) : ¬IsSkipped p := by
  rintro (hresult | ⟨kind, hkind, hne⟩)
  · rw [h.noAnswer] at hresult
    cases hresult
  · rw [h.kind] at hkind
    exact hne (Option.some.inj hkind).symm

theorem Reports.unique (h : Reports p t) (h' : Reports p t') : t = t' := by
  obtain ⟨eventTime, symbol, id, price, quantity, tradeTime, buyerIsMaker⟩ := t
  obtain ⟨eventTime', symbol', id', price', quantity', tradeTime', buyerIsMaker'⟩ := t'
  have hid : id = id' := UInt64.toNat_inj.1 (Option.some.inj (h.id.symm.trans h'.id))
  have heventTime := Option.some.inj (h.eventTime.symm.trans h'.eventTime)
  have hsymbol := Option.some.inj (h.symbol.symm.trans h'.symbol)
  have hprice := Option.some.inj (h.price.symm.trans h'.price)
  have hquantity := Option.some.inj (h.quantity.symm.trans h'.quantity)
  have htradeTime := Option.some.inj (h.tradeTime.symm.trans h'.tradeTime)
  have hbuyer := Option.some.inj (h.buyerIsMaker.symm.trans h'.buyerIsMaker)
  dsimp only at *
  subst heventTime hsymbol hid hprice hquantity htradeTime hbuyer
  rfl

namespace Classified

theorem eq_ok_none_iff (h : Classified p r) : r = .ok none ↔ IsSkipped p := by
  cases h with
  | skipped h => exact iff_of_true rfl h
  | trade h => exact iff_of_false nofun h.not_isSkipped
  | refused hskipped _ _ => exact iff_of_false nofun hskipped

theorem eq_ok_some_iff (h : Classified p r) : r = .ok (some t) ↔ Reports p t := by
  cases h with
  | skipped h => exact iff_of_false nofun fun ht => ht.not_isSkipped h
  | trade h =>
    constructor
    · intro heq
      cases heq
      exact h
    · exact fun h' => by rw [h.unique h']
  | refused _ htrade _ => exact iff_of_false nofun (htrade t)

theorem isDecodeError_iff (h : Classified p r) :
    IsDecodeError r ↔ ¬IsSkipped p ∧ ∀ t, ¬Reports p t := by
  cases h with
  | skipped h => exact iff_of_false nofun fun hnot => hnot.1 h
  | trade h => exact iff_of_false nofun fun hnot => hnot.2 _ h
  | refused hskipped htrade what => exact iff_of_true ⟨what, rfl⟩ ⟨hskipped, htrade⟩

/-- The outcome is the same for documents that are skipped, and report trades, alike. -/
theorem same (h : Classified p r) (h' : Classified p' r') (hskipped : IsSkipped p ↔ IsSkipped p')
    (htrade : ∀ t, Reports p t ↔ Reports p' t) : SameOutcome r r' := by
  cases h with
  | skipped h => exact .inl (h'.eq_ok_none_iff.2 (hskipped.1 h)).symm
  | trade h => exact .inl (h'.eq_ok_some_iff.2 ((htrade _).1 h)).symm
  | refused hnot hnone what =>
    exact .inr ⟨⟨what, rfl⟩, h'.isDecodeError_iff.2
      ⟨fun h => hnot (hskipped.2 h), fun t h => hnone t ((htrade t).2 h)⟩⟩

end Classified

end

/-! ## From the meaning of a document -/

section

variable {doc p : Tree} {v : Value} {ms : Members}

theorem member?_eq_none (h : p.Means v) (hv : ∀ ms, v ≠ .object ms) (name : String) :
    p.member? name = none := by
  cases p with
  | object members =>
    obtain ⟨ms, rfl⟩ := Tree.Means.exists_object h
    exact absurd rfl (hv ms)
  | _ => rfl

theorem means_payload (h : doc.Means v) : (carried doc).Means (payload v) := by
  by_cases hv : ∃ ms, v = .object ms
  · obtain ⟨ms, rfl⟩ := hv
    exact rel_getD (h.members "data") h
  · have hnone := member?_eq_none h (not_exists.1 hv) "data"
    have hself : payload v = v := by
      cases v with
      | object ms => exact absurd ⟨ms, rfl⟩ hv
      | _ => rfl
    rw [carried, hnone, hself]
    exact h

/-- The event that the meaning of a document announces, by the members of the document. -/
theorem event_eq (h : p.Means v) : event v =
    if (p.member? "result").isSome then .acknowledgement
    else match kind? p with
      | some kind => if kind = "trade" then .trade else .other
      | none => .unnamed := by
  by_cases hv : ∃ ms, v = .object ms
  · obtain ⟨ms, rfl⟩ := hv
    have hkind : kind? p = (Members.get? ms "e").bind fun v => v.tree.text? := by
      rw [kind?, ← required?_of_means readsScalar_text? (h.members "e"), required?,
        Option.bind_map]
      rfl
    rw [rel_isSome (h.members "result"), hkind, event]
    rcases Members.get? ms "e" with _ | (_ | _ | _ | _ | _ | _) <;> rfl
  · have hnone := member?_eq_none h (not_exists.1 hv)
    rw [kind?, hnone "result", hnone "e"]
    cases v with
    | object ms => exact absurd ⟨ms, rfl⟩ hv
    | _ => rfl

theorem word64?_lt {t : Tree} {n : Nat} (h : t.word64? = some n) : n < 18446744073709551616 := by
  obtain ⟨i, -, h⟩ := Option.bind_eq_some_iff.1 h
  split at h
  · cases h
    omega
  · cases h

/-- The trade that is read out of the meaning of an object, by the members of the object. -/
theorem ofTree?_eq_some_iff (h : p.Means (.object ms)) (hresult : p.member? "result" = none)
    (hkind : kind? p = some "trade") {t : Trade} :
    ofTree? (Value.object ms).tree = some t ↔ Reports p t := by
  unfold ofTree?
  rw [fields?_tree _ h.sorted]
  simp only [List.map_cons, List.map_nil, Option.bind_eq_bind,
    required?_of_means readsScalar_int64? (h.members _),
    required?_of_means readsScalar_text? (h.members _),
    required?_of_means readsScalar_word64? (h.members _),
    required?_of_means readsScalar_decimal? (h.members _),
    required?_of_means readsScalar_bool? (h.members _)]
  constructor
  · intro hsome
    obtain ⟨eventTime, heventTime, hsome⟩ := Option.bind_eq_some_iff.1 hsome
    obtain ⟨symbol, hsymbol, hsome⟩ := Option.bind_eq_some_iff.1 hsome
    obtain ⟨id, hid, hsome⟩ := Option.bind_eq_some_iff.1 hsome
    obtain ⟨price, hprice, hsome⟩ := Option.bind_eq_some_iff.1 hsome
    obtain ⟨quantity, hquantity, hsome⟩ := Option.bind_eq_some_iff.1 hsome
    obtain ⟨tradeTime, htradeTime, hsome⟩ := Option.bind_eq_some_iff.1 hsome
    obtain ⟨buyerIsMaker, hbuyer, hsome⟩ := Option.bind_eq_some_iff.1 hsome
    cases hsome
    obtain ⟨u, -, hword⟩ := Option.bind_eq_some_iff.1 hid
    refine ⟨hresult, hkind, heventTime, hsymbol, ?_, hprice, hquantity, htradeTime, hbuyer⟩
    rw [hid, UInt64.toNat_ofNat_of_lt' (word64?_lt hword)]
  · intro ht
    rw [ht.eventTime, ht.symbol, ht.id, ht.price, ht.quantity, ht.tradeTime, ht.buyerIsMaker]
    exact congrArg (fun id => some { t with id }) UInt64.ofNat_toNat

/-! ## Texts -/

variable {text text' : String} {doc' : Tree}

theorem ofFrame_eq {v : Value} (htext : IsText text.toList doc) (hv : doc.value? = some v) :
    ofFrame text =
      match event (payload v) with
      | .acknowledgement => .ok none
      | .other => .ok none
      | .unnamed => .error (.decode ("trade frame without event type: " ++ text))
      | .trade =>
        match ofTree? (payload v).tree with
        | some t => .ok (some t)
        | none => .error (.decode "trade frame") := by
  have hdecode : decode? text.toList = some v := by
    rw [decode?, read?_eq_some_iff.2 htext, Option.bind_some, hv]
  unfold ofFrame
  generalize decode? text.toList = o at hdecode
  subst hdecode
  rfl

/-- Without an answer and with no kind of event a document is neither skipped nor a trade. -/
theorem classified_unnamed (hresult : ¬(p.member? "result").isSome = true) (hkind : kind? p = none)
    (what : String) : Classified p (.error (.decode what)) := by
  refine .refused ?_ (fun t ht => nomatch hkind.symm.trans ht.kind) what
  rintro (h | ⟨kind, h, -⟩)
  · exact hresult h
  · cases hkind.symm.trans h

/-- A document that calls itself a trade is one if its fields can be read. -/
theorem classified_trade (h : p.Means v) (hresult : ¬(p.member? "result").isSome = true)
    (hkind : kind? p = some "trade") :
    Classified p
      (match ofTree? v.tree with
      | some t => .ok (some t)
      | none => .error (.decode "trade frame")) := by
  obtain ⟨ms, rfl⟩ : ∃ ms, v = .object ms := by
    by_contra hv
    rw [kind?, member?_eq_none h (not_exists.1 hv)] at hkind
    cases hkind
  have hread := @ofTree?_eq_some_iff _ _ h (Option.not_isSome_iff_eq_none.1 hresult) hkind
  rcases ht : ofTree? (Value.object ms).tree with _ | t
  · refine .refused ?_ (fun t h => nomatch (hread.2 h).symm.trans ht) _
    rintro (h | ⟨kind, h, hne⟩)
    · exact hresult h
    · exact hne (Option.some.inj (hkind.symm.trans h)).symm
  · exact .trade (hread.1 ht)

theorem classified (htext : IsText text.toList doc) (hdoc : doc.Readable) :
    Classified (carried doc) (ofFrame text) := by
  obtain ⟨v, hv⟩ := Option.isSome_iff_exists.1 (Tree.isSome_value?.2 hdoc)
  have hp : (carried doc).Means (payload v) := means_payload ⟨_, hv⟩
  rw [ofFrame_eq htext hv, event_eq hp]
  generalize payload v = w at hp
  generalize carried doc = p at hp
  by_cases hresult : (p.member? "result").isSome = true
  · rw [if_pos hresult]
    exact .skipped (.inl hresult)
  rw [if_neg hresult]
  rcases hkind : kind? p with _ | kind
  · exact classified_unnamed hresult hkind _
  dsimp only
  by_cases htrade : kind = "trade"
  · rw [if_pos htrade]
    exact classified_trade hp hresult (htrade ▸ hkind)
  · rw [if_neg htrade]
    exact .skipped (.inr ⟨kind, hkind, htrade⟩)

/-- A text that is no document, or the text of one that means nothing, is refused. -/
theorem isDecodeError_of_unreadable (h : ∀ doc, IsText text.toList doc → ¬doc.Readable) :
    IsDecodeError (ofFrame text) := by
  have hdecode : decode? text.toList = none := by
    refine Option.bind_eq_none_iff.2 fun doc hread => Option.not_isSome_iff_eq_none.1 ?_
    rw [Tree.isSome_value?]
    exact h doc (read?_eq_some_iff.1 hread)
  rw [ofFrame, hdecode]
  exact ⟨_, rfl⟩

theorem isDecodeError_of_not_readable (htext : IsText text.toList doc) (hdoc : ¬doc.Readable) :
    IsDecodeError (ofFrame text) :=
  isDecodeError_of_unreadable fun _ htext' => htext.unique htext' ▸ hdoc

/-- Texts of documents have one outcome if both can be read or neither, and what they carry is
skipped, and reports trades, alike. -/
theorem same_of_texts (htext : IsText text.toList doc) (htext' : IsText text'.toList doc')
    (hreadable : doc.Readable ↔ doc'.Readable)
    (hskipped : IsSkipped (carried doc) ↔ IsSkipped (carried doc'))
    (htrade : ∀ t, Reports (carried doc) t ↔ Reports (carried doc') t) :
    SameOutcome (ofFrame text) (ofFrame text') := by
  by_cases hdoc : doc.Readable
  · exact (classified htext hdoc).same (classified htext' (hreadable.1 hdoc)) hskipped htrade
  · exact .inr ⟨isDecodeError_of_not_readable htext hdoc,
      isDecodeError_of_not_readable htext' fun h => hdoc (hreadable.2 h)⟩

/-! ## What makes no difference -/

theorem carried_wrapped (stream : String) (doc : Tree) : carried (wrapped stream doc) = doc := rfl

theorem wrapped_readable_iff (stream : String) (hnests : doc.NestsWithin 126) :
    (wrapped stream doc).Readable ↔ doc.Readable := by
  constructor
  · rintro ⟨-, hdenotes⟩
    cases hdenotes with | object _ hdenotes =>
    exact ⟨hnests.succ, hdenotes (some "data", doc) (.tail _ (.head _))⟩
  · rintro ⟨-, hdenotes⟩
    refine ⟨.object ?_, .object ?_ ?_⟩ <;> simp only [List.forall_mem_cons, List.not_mem_nil]
    · exact ⟨.string _ _, hnests, nofun⟩
    · exact ⟨rfl, rfl, nofun⟩
    · exact ⟨.string _, hdenotes, nofun⟩

section

variable {p' : Tree} {unknown : String → Prop}

theorem carried_alike (h : Alike unknown doc doc') (hdata : ¬unknown "data") :
    Alike unknown (carried doc) (carried doc') :=
  rel_getD (h.member? hdata) h

/-- A scalar that is read from a member of a known name. -/
theorem bind_eq_of_alike {α : Type} {f : Tree → Option α} (hf : ReadsScalar f)
    (h : Alike unknown p p') {name : String} (hname : ¬unknown name) :
    (p.member? name).bind f = (p'.member? name).bind f :=
  rel_bind (h.member? hname) fun _ _ halike => hf.congr halike.sameScalar

variable (hknown : ∀ name ∈ knownNames, ¬unknown name)
include hknown

theorem isSkipped_iff_of_alike (h : Alike unknown p p') : IsSkipped p ↔ IsSkipped p' := by
  rw [IsSkipped, IsSkipped, rel_isSome (h.member? (hknown "result" (by decide))), kind?, kind?,
    bind_eq_of_alike readsScalar_text? h (hknown "e" (by decide))]

theorem reports_of_alike (h : Alike unknown p p') {t : Trade} (ht : Reports p t) :
    Reports p' t := by
  have hanswer := rel_isSome (h.member? (hknown "result" (by decide)))
  rw [ht.noAnswer] at hanswer
  exact {
    noAnswer := Option.not_isSome_iff_eq_none.1 (hanswer ▸ Bool.false_ne_true)
    kind := (bind_eq_of_alike readsScalar_text? h (hknown "e" (by decide))).symm.trans ht.kind
    eventTime :=
      (bind_eq_of_alike readsScalar_int64? h (hknown "E" (by decide))).symm.trans ht.eventTime
    symbol := (bind_eq_of_alike readsScalar_text? h (hknown "s" (by decide))).symm.trans ht.symbol
    id := (bind_eq_of_alike readsScalar_word64? h (hknown "t" (by decide))).symm.trans ht.id
    price := (bind_eq_of_alike readsScalar_decimal? h (hknown "p" (by decide))).symm.trans ht.price
    quantity :=
      (bind_eq_of_alike readsScalar_decimal? h (hknown "q" (by decide))).symm.trans ht.quantity
    tradeTime :=
      (bind_eq_of_alike readsScalar_int64? h (hknown "T" (by decide))).symm.trans ht.tradeTime
    buyerIsMaker :=
      (bind_eq_of_alike readsScalar_bool? h (hknown "m" (by decide))).symm.trans ht.buyerIsMaker }

theorem same_of_alike (htext : IsText text.toList doc) (htext' : IsText text'.toList doc')
    (h : Alike unknown doc doc') (hreadable : doc.Readable ↔ doc'.Readable) :
    SameOutcome (ofFrame text) (ofFrame text') := by
  have hcarried := carried_alike h (hknown "data" (by decide))
  exact same_of_texts htext htext' hreadable (isSkipped_iff_of_alike hknown hcarried) fun t =>
    ⟨reports_of_alike hknown hcarried, reports_of_alike hknown hcarried.symm⟩

end

end

/-- For every text. If it is the text of no document that can be read, decoding fails. Otherwise
the frame is taken for what the carried document is: skipped, the trade that it reports, or else a
failure to decode. Wrapping a document changes nothing, nor do blanks and the order of members,
nor members of unknown names that can be read wherever the rest of the document can. -/
theorem frames_classified (text : String) :
    ((∀ doc, IsText text.toList doc → ¬doc.Readable) → IsDecodeError (ofFrame text)) ∧
    ∀ doc, IsText text.toList doc →
      (doc.Readable →
        (ofFrame text = .ok none ↔ IsSkipped (carried doc)) ∧
        (∀ t, ofFrame text = .ok (some t) ↔ Reports (carried doc) t) ∧
        (IsDecodeError (ofFrame text) ↔
          ¬IsSkipped (carried doc) ∧ ∀ t, ¬Reports (carried doc) t)) ∧
      (∀ stream text', doc.member? "data" = none → doc.NestsWithin 126 →
        IsText text'.toList (wrapped stream doc) → SameOutcome (ofFrame text) (ofFrame text')) ∧
      (∀ doc' text', IsText text'.toList doc' → Alike (fun _ => False) doc doc' →
        SameOutcome (ofFrame text) (ofFrame text')) ∧
      ∀ doc' text', IsText text'.toList doc' → Alike (· ∉ knownNames) doc doc' →
        (doc.Readable ↔ doc'.Readable) → SameOutcome (ofFrame text) (ofFrame text') := by
  refine ⟨isDecodeError_of_unreadable, fun doc htext => ⟨fun hdoc => ?_, ?_, ?_, ?_⟩⟩
  · have h := classified htext hdoc
    exact ⟨h.eq_ok_none_iff, fun t => h.eq_ok_some_iff, h.isDecodeError_iff⟩
  · intro stream text' hdata hnests htext'
    have hself : carried doc = doc := by
      rw [carried, hdata]
      rfl
    refine same_of_texts htext htext' (wrapped_readable_iff stream hnests).symm ?_ fun t => ?_
    · rw [carried_wrapped, hself]
    · rw [carried_wrapped, hself]
  · exact fun doc' text' htext' h =>
      same_of_alike (fun _ _ => not_false) htext htext' h h.readable_iff
  · exact fun doc' text' htext' h hreadable =>
      same_of_alike (fun _ hname hnot => hnot hname) htext htext' h hreadable

namespace Sample

def members : List (Option String × Tree) :=
  [(some "e", .string (some "trade")), (some "E", .number (some (.int 7))),
    (some "s", .string (some "B")), (some "t", .number (some (.int 8))),
    (some "p", .string (some "0.50")), (some "q", .string (some "2")),
    (some "T", .number (some (.int 6))), (some "m", .bool true)]

def trade : Trade :=
  ⟨7, "B", 8, (Decimal.ofUnits? 50 2).getD .zero, (Decimal.ofInt? 2).getD .zero, 6, true⟩

def text : String :=
  "\x7b\"e\":\"trade\",\"E\":7,\"s\":\"B\",\"t\":8," ++
    "\"p\":\"0.50\",\"q\":\"2\",\"T\":6,\"m\":true\x7d"

def wrappedText : String := "\x7b\"stream\":\"b\",\"data\":" ++ text ++ "\x7d"

/-- With blanks, and the members in reverse order. -/
def backwardsText : String :=
  "\x7b\"m\": true, \"T\": 6, \"q\": \"2\", \"p\": \"0.50\",\n" ++
    "\"t\": 8, \"s\": \"B\", \"E\": 7, \"e\": \"trade\"\x7d\n"

/-- With a member of an unknown name. -/
def extendedText : String :=
  "\x7b\"M\":[],\"e\":\"trade\",\"E\":7,\"s\":\"B\",\"t\":8," ++
    "\"p\":\"0.50\",\"q\":\"2\",\"T\":6,\"m\":true\x7d"

end Sample

theorem SameOutcome.eq_ok {o : Option Trade} {r r' : Except VenueError (Option Trade)}
    (h : SameOutcome r r') (hr : r = .ok o) : r' = .ok o := by
  subst hr
  rcases h with h | ⟨⟨_, h⟩, -⟩
  · exact h.symm
  · cases h

/-- A trade, wrapped, written backwards and with a member more; and half a text. -/
theorem frames_classified_sample :
    ofFrame Sample.text = .ok (some Sample.trade) ∧
    ofFrame Sample.wrappedText = .ok (some Sample.trade) ∧
    ofFrame Sample.backwardsText = .ok (some Sample.trade) ∧
    ofFrame Sample.extendedText = .ok (some Sample.trade) ∧
    IsDecodeError (ofFrame "\x7b\"result\":") := by
  have hread : read? Sample.text.toList = some (.object Sample.members) := rfl
  have hdoc : (Tree.object Sample.members).Readable := Tree.isSome_value?.1 rfl
  obtain ⟨htrade, hwrap, horder, hextra⟩ :=
    (frames_classified _).2 _ (read?_eq_some_iff.1 hread)
  have hok := ((htrade hdoc).2.1 Sample.trade).2
    ⟨rfl, rfl, rfl, rfl, rfl, by decide +kernel, by decide +kernel, rfl, rfl⟩
  refine ⟨hok, ?_, ?_, ?_, ?_⟩
  · exact (hwrap "b" _ rfl ((Tree.isSome_valueWithin? 126 _).1 rfl).1
      (read?_eq_some_iff.1 rfl)).eq_ok hok
  · exact (horder (.object Sample.members.reverse) _ (read?_eq_some_iff.1 rfl)
      (.order (List.reverse_perm _).symm (by decide))).eq_ok hok
  · exact (hextra (.object ((some "M", .array []) :: Sample.members)) _ (read?_eq_some_iff.1 rfl)
      (.extra (by decide) _ [] _) (iff_of_true hdoc (Tree.isSome_value?.1 rfl))).eq_ok hok
  · refine (frames_classified _).1 fun doc htext => ?_
    have hnone := read?_eq_some_iff.2 htext
    cases hnone

end Trade
end Binance
end MarketFeed
