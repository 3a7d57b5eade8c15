import MarketFeed.Collector.Normalize
import MarketFeed.Proofs.Json.Fields
import MarketFeed.Proofs.Json.Printing

/-!
# MarketFeed.Proofs.Market.Records

Ticks and bars survive their JSON form.

* `Tick.Obtained`, `Bar.Obtained` — read from a text, or made of what a venue delivered.
* `Tick.portable_extra`, `Bar.portable_extra` — their extra members are read as what they were,
  unless there are doubles among them.
* `Tick.ofText?_text`, `Bar.ofText?_text` — read back from a text with the members in any order.
* `Tick.ofTree?_leftOut`, `Bar.ofTree?_leftOut` — read without extra members as with none.
* `records_survive` — all of it.
-/

namespace MarketFeed

open Json (Value Tree Members LeftOut)

/-! ## What venues deliver -/

theorem exists_of_map_eq_ok {ε α β : Type} {x : Except ε α} {f : α → β} {b : β}
    (h : x.map f = .ok b) : ∃ a, x = .ok a ∧ f a = b := by
  cases x with
  | error e => cases h
  | ok a =>
    cases h
    exact ⟨a, rfl, rfl⟩

theorem Ibkr.portable_priceMembers (l : List (String × Option Decimal)) :
    (priceMembers l).Portable := by
  refine Members.portable_ofList fun m hm => ?_
  obtain ⟨p, -, hp⟩ := List.mem_filterMap.1 hm
  obtain ⟨d, -, rfl⟩ := Option.map_eq_some_iff.1 hp
  exact .string _

/-! ## The last field -/

/-- A record keeps as its extra members what the last field of its document holds. -/
def KeepsExtra {α : Type} (names : List String) (ofTree? : Tree → Option α)
    (extra : α → Members) : Prop :=
  ∀ doc a, ofTree? doc = some a → ∃ fields field,
    Json.fields? names true doc = some (fields ++ [field]) ∧
    Json.defaulted? (Tree.membersWithin? (Json.maxDepth - 1)) [] field = some (extra a)

namespace KeepsExtra

variable {α : Type} {names : List String} {ofTree? : Tree → Option α} {extra : α → Members}
  {a : α}

theorem portable (h : KeepsExtra names ofTree? extra) {text : List Char}
    (hread : (Json.read? text).bind ofTree? = some a) (hfree : (Value.object (extra a)).FloatFree) :
    (extra a).Portable := by
  obtain ⟨doc, hdoc, ha⟩ := Option.bind_eq_some_iff.1 hread
  obtain ⟨fields, field, hfields, hextra⟩ := h doc a ha
  exact Members.portable_of_defaulted? hextra
    ((Json.fits_of_read? hdoc).of_fields? hfields field (by simp)) hfree

theorem eq_nil {others : List String} {last : String} {t u v : Tree}
    (h : KeepsExtra names ofTree? extra) (hnames : names = others ++ [last])
    (hleft : LeftOut others last t u v) (hlast : last ∉ others) (ha : ofTree? u = some a) :
    extra a = [] := by
  subst hnames
  obtain ⟨o, hu, -, -⟩ := hleft.fields? hlast
  obtain ⟨fields, field, hfields, hextra⟩ := h u a ha
  obtain ⟨l, -, hl⟩ := Option.map_eq_some_iff.1 (hu.symm.trans hfields)
  obtain ⟨-, hend⟩ := List.append_inj' hl rfl
  cases hend
  exact (Option.some.inj hextra).symm

end KeepsExtra

/-! ## Ticks -/

namespace Tick

/-- Reads a tick from a text. -/
def ofText? (text : List Char) : Option Tick := (Json.read? text).bind ofTree?

/-- The members of a tick's JSON form, in the order of its fields. -/
def members (t : Tick) : List (String × Value) :=
  [("exchange", .string t.exchange), ("symbol", .string t.symbol),
    ("source", .string t.source), ("timestamp", .ofInstant t.timestamp),
    ("price", .ofDecimal t.price), ("size", .ofDecimal t.size),
    ("side", .ofOption Side.value t.side), ("extra", .object t.extra)]

/-- Read from a text, or made of what a venue delivered. -/
inductive Obtained : Tick → Prop
  | read {text : List Char} {t : Tick} (h : ofText? text = some t) : Obtained t
  | trade {trade : Binance.Trade} {t : Tick} (h : trade.toTick = .ok t) : Obtained t
  | ticker {ticker : Ibkr.Ticker} {contract : Ibkr.Contract} {t : Tick}
      (h : ticker.toTick? contract = some t) : Obtained t

theorem exact_members {t : Tick} (h : (Value.object t.extra).Exact) :
    ∀ m ∈ t.members, m.2.Exact := by
  have hside : (Value.ofOption Side.value t.side).Exact := by
    cases t.side with
    | none => exact .null
    | some side => exact .string _
  simp only [members, List.forall_mem_cons]
  exact ⟨.string _, .string _, .string _, .string _, .string _, .string _, hside, h, nofun⟩

theorem ofTree?_side (s : Side) : Side.ofTree? s.value.tree = some s := by
  cases s <;> decide

theorem names_members (t : Tick) : t.members.map (·.1) = fieldNames := rfl

theorem nodup_fieldNames : fieldNames.Nodup := by decide

theorem ofTree?_tree {t : Tick} (h : t.extra.Portable) {ms : List (String × Value)}
    (hms : ms.Perm t.members) : ofTree? (Value.object ms).tree = some t := by
  have hfields := Json.fields?_of_perm (names_members t) nodup_fieldNames hms true
  have hside := Json.optional?_ofOption (k := id) ofTree?_side (fun _ => nofun) t.side
  rw [Option.map_id, id] at hside
  rw [ofTree?, ofTreeWithin?, hfields]
  simp only [members, List.map_cons, List.map_nil, Json.required?, Option.bind_some,
    Json.text?_string, Json.instant?_ofInstant, Json.decimal?_ofDecimal, hside, h.defaulted?,
    Option.bind_eq_bind]

theorem keepsExtra : KeepsExtra fieldNames ofTree? Tick.extra := by
  intro doc t h
  rw [ofTree?, ofTreeWithin?] at h
  split at h
  · next hfields =>
    simp only [Option.bind_eq_bind, Option.bind_eq_some_iff] at h
    obtain ⟨_, -, _, -, _, -, _, -, _, -, _, -, _, -, _, hextra, h⟩ := h
    cases h
    exact ⟨[_, _, _, _, _, _, _], _, hfields, hextra⟩
  · cases h

theorem portable_extra {t : Tick} (h : t.Obtained) (hfree : (Value.object t.extra).FloatFree) :
    t.extra.Portable := by
  cases h with
  | read h => exact keepsExtra.portable h hfree
  | @trade trade _ h =>
    obtain ⟨time, -, rfl⟩ := exists_of_map_eq_ok h
    refine Members.portable_ofList (List.forall_mem_singleton.2 (.int ?_))
    have hlt := trade.id.toNat_lt
    exact ⟨by omega, by omega⟩
  | @ticker ticker contract _ h =>
    obtain ⟨price, -, rfl⟩ := Option.map_eq_some_iff.1 h
    exact Ibkr.portable_priceMembers _

/-- A tick whose extra members are left out is read as one without any. -/
theorem ofTree?_leftOut {u v : Tree} (h : LeftOut fieldNames.dropLast "extra" (.object []) u v) :
    ofTree? u = ofTree? v := by
  obtain ⟨o, hu, hv, hlength⟩ := h.fields? (by decide)
  replace hu : Json.fields? fieldNames true u = o.map (· ++ [none]) := hu
  replace hv : Json.fields? fieldNames true v = o.map (· ++ [some (.object [])]) := hv
  rw [ofTree?, ofTree?, ofTreeWithin?, ofTreeWithin?, hu, hv]
  cases o with
  | none => rfl
  | some l =>
    match l, hlength l rfl with
    | [exchange, symbol, source, timestamp, price, size, side], _ =>
      simp only [Option.map_some, List.cons_append, List.nil_append, Members.defaulted?_empty]
      rfl

/-- A tick is read back from its text, in whatever order its members stand. -/
theorem ofText?_text {t : Tick} (h : t.extra.Portable) {ms : List (String × Value)}
    (hms : ms.Perm t.members) : ofText? (Value.object ms).text = some t := by
  have hexact : (Value.object ms).Exact :=
    .object fun m hm => exact_members h.exact m (hms.mem_iff.1 hm)
  rw [ofText?, hexact.read?_text, Option.bind_some, ofTree?_tree h hms]

theorem ofText?_toText {t : Tick} (h : t.extra.Portable) :
    ofText? t.value.toText.toList = some t := by
  rw [Value.toText, String.toList_ofList]
  exact ofText?_text h (Members.perm_ofList nodup_fieldNames)

end Tick

/-! ## Bars -/

namespace Bar

/-- Reads a bar from a text. -/
def ofText? (text : List Char) : Option Bar := (Json.read? text).bind ofTree?

/-- The members of a bar's JSON form, in the order of its fields. -/
def members (b : Bar) : List (String × Value) :=
  [("exchange", .string b.exchange), ("symbol", .string b.symbol),
    ("interval", .string b.interval), ("timestamp", .ofInstant b.timestamp),
    ("open", .ofDecimal b.open), ("high", .ofDecimal b.high), ("low", .ofDecimal b.low),
    ("close", .ofDecimal b.close), ("volume", .ofDecimal b.volume),
    ("quote_volume", .ofOption .ofDecimal b.quoteVolume),
    ("trade_count", .ofOption (fun n => .ofNat n.toNat) b.tradeCount),
    ("extra", .object b.extra)]

/-- Read from a text, or made of what a venue delivered. -/
inductive Obtained : Bar → Prop
  | read {text : List Char} {b : Bar} (h : ofText? text = some b) : Obtained b
  | kline {kline : Binance.Kline} {symbol : String} {interval : Interval} {b : Bar}
      (hlow : -9223372036854775808 ≤ kline.closeTime)
      (hhigh : kline.closeTime < 9223372036854775808)
      (h : kline.toBar symbol interval = .ok b) : Obtained b
  | history (bar : Ibkr.HistoryBar) (contract : Ibkr.Contract) (interval : Interval) :
      Obtained (bar.toBar contract interval)

theorem exact_members {b : Bar} (h : (Value.object b.extra).Exact) :
    ∀ m ∈ b.members, m.2.Exact := by
  have hquote : (Value.ofOption .ofDecimal b.quoteVolume).Exact := by
    cases b.quoteVolume with
    | none => exact .null
    | some d => exact .string _
  have hcount : (Value.ofOption (fun n => .ofNat n.toNat) b.tradeCount).Exact := by
    cases b.tradeCount with
    | none => exact .null
    | some n =>
      have hlt := n.toNat_lt
      exact .int ⟨by omega, by omega⟩
  simp only [members, List.forall_mem_cons]
  exact ⟨.string _, .string _, .string _, .string _, .string _, .string _, .string _, .string _,
    .string _, hquote, hcount, h, nofun⟩

theorem names_members (b : Bar) : b.members.map (·.1) = fieldNames := rfl

theorem nodup_fieldNames : fieldNames.Nodup := by decide

theorem ofTree?_tree {b : Bar} (h : b.extra.Portable) {ms : List (String × Value)}
    (hms : ms.Perm b.members) : ofTree? (Value.object ms).tree = some b := by
  have hfields := Json.fields?_of_perm (names_members b) nodup_fieldNames hms true
  have hquote := Json.optional?_ofOption (k := id) Json.decimal?_ofDecimal (fun _ => nofun)
    b.quoteVolume
  rw [Option.map_id, id] at hquote
  have hcount := Json.optional?_ofOption Json.word64?_ofNat (fun _ => nofun) b.tradeCount
  have hword : (b.tradeCount.map UInt64.toNat).map UInt64.ofNat = b.tradeCount := by
    cases b.tradeCount <;> simp
  rw [ofTree?, ofTreeWithin?, hfields]
  simp only [members, List.map_cons, List.map_nil, Json.required?, Option.bind_some,
    Json.text?_string, Json.instant?_ofInstant, Json.decimal?_ofDecimal, hquote, hcount,
    h.defaulted?, Option.bind_eq_bind, hword]

theorem keepsExtra : KeepsExtra fieldNames ofTree? Bar.extra := by
  intro doc b h
  rw [ofTree?, ofTreeWithin?] at h
  split at h
  · next hfields =>
    simp only [Option.bind_eq_bind, Option.bind_eq_some_iff] at h
    obtain ⟨_, -, _, -, _, -, _, -, _, -, _, -, _, -, _, -, _, -, _, -, _, -, _, hextra, h⟩ := h
    cases h
    exact ⟨[_, _, _, _, _, _, _, _, _, _, _], _, hfields, hextra⟩
  · cases h

theorem portable_extra {b : Bar} (h : b.Obtained) (hfree : (Value.object b.extra).FloatFree) :
    b.extra.Portable := by
  cases h with
  | read h => exact keepsExtra.portable h hfree
  | @kline kline _ _ _ hlow hhigh h =>
    obtain ⟨time, -, rfl⟩ := exists_of_map_eq_ok h
    refine Members.portable_ofList ?_
    simp only [List.forall_mem_cons]
    exact ⟨.int ⟨hlow, by omega⟩, .string _, .string _, nofun⟩
  | history bar contract interval => exact Ibkr.portable_priceMembers _

/-- A bar whose extra members are left out is read as one without any. -/
theorem ofTree?_leftOut {u v : Tree} (h : LeftOut fieldNames.dropLast "extra" (.object []) u v) :
    ofTree? u = ofTree? v := by
  obtain ⟨o, hu, hv, hlength⟩ := h.fields? (by decide)
  replace hu : Json.fields? fieldNames true u = o.map (· ++ [none]) := hu
  replace hv : Json.fields? fieldNames true v = o.map (· ++ [some (.object [])]) := hv
  rw [ofTree?, ofTree?, ofTreeWithin?, ofTreeWithin?, hu, hv]
  cases o with
  | none => rfl
  | some l =>
    match l, hlength l rfl with
    | [exchange, symbol, interval, timestamp, «open», high, low, close, volume, quoteVolume,
        tradeCount], _ =>
      simp only [Option.map_some, List.cons_append, List.nil_append, Members.defaulted?_empty]
      rfl

/-- A bar is read back from its text, in whatever order its members stand. -/
theorem ofText?_text {b : Bar} (h : b.extra.Portable) {ms : List (String × Value)}
    (hms : ms.Perm b.members) : ofText? (Value.object ms).text = some b := by
  have hexact : (Value.object ms).Exact :=
    .object fun m hm => exact_members h.exact m (hms.mem_iff.1 hm)
  rw [ofText?, hexact.read?_text, Option.bind_some, ofTree?_tree h hms]

theorem ofText?_toText {b : Bar} (h : b.extra.Portable) :
    ofText? b.value.toText.toList = some b := by
  rw [Value.toText, String.toList_ofList]
  exact ofText?_text h (Members.perm_ofList nodup_fieldNames)

end Bar

/-- Ticks and bars that were read, or made of what a venue delivered, survive their JSON form, in
whatever order its members stand. Without a member for them there are no extra members. -/
theorem records_survive :
    (∀ t : Tick, t.Obtained → (Value.object t.extra).FloatFree →
      (∀ ms, ms.Perm t.members → Tick.ofText? (Value.object ms).text = some t) ∧
      Tick.ofText? t.value.toText.toList = some t ∧
      (Tick.ofText? t.value.toText.toList).map Tick.key = some t.key) ∧
    (∀ b : Bar, b.Obtained → (Value.object b.extra).FloatFree →
      (∀ ms, ms.Perm b.members → Bar.ofText? (Value.object ms).text = some b) ∧
      Bar.ofText? b.value.toText.toList = some b ∧
      (Bar.ofText? b.value.toText.toList).map Bar.key = some b.key) ∧
    ∀ text text' doc doc', Json.read? text = some doc → Json.read? text' = some doc' →
      (LeftOut Tick.fieldNames.dropLast "extra" (.object []) doc doc' →
        Tick.ofText? text = Tick.ofText? text' ∧ ∀ t ∈ Tick.ofText? text, t.extra = []) ∧
      (LeftOut Bar.fieldNames.dropLast "extra" (.object []) doc doc' →
        Bar.ofText? text = Bar.ofText? text' ∧ ∀ b ∈ Bar.ofText? text, b.extra = []) := by
  refine ⟨fun t ht hfree => ?_, fun b hb hfree => ?_, fun text text' doc doc' h h' => ?_⟩
  · have hportable := Tick.portable_extra ht hfree
    have hread := Tick.ofText?_toText hportable
    exact ⟨fun ms hms => Tick.ofText?_text hportable hms, hread, congrArg _ hread⟩
  · have hportable := Bar.portable_extra hb hfree
    have hread := Bar.ofText?_toText hportable
    exact ⟨fun ms hms => Bar.ofText?_text hportable hms, hread, congrArg _ hread⟩
  · rw [Tick.ofText?, Tick.ofText?, Bar.ofText?, Bar.ofText?, h, h']
    exact ⟨fun hleft => ⟨Tick.ofTree?_leftOut hleft, fun t =>
        Tick.keepsExtra.eq_nil rfl hleft (by decide)⟩,
      fun hleft => ⟨Bar.ofTree?_leftOut hleft, fun b =>
        Bar.keepsExtra.eq_nil rfl hleft (by decide)⟩⟩

/-- A tick in a leap second before the first year, with nested extra members. -/
def leapTick : Tick where
  exchange := "ibkr"
  symbol := "a\"\\\n\u0001é"
  source := ""
  timestamp := ⟨-800000, 86399, 1500000000, by decide, by decide, by decide, by decide, by decide⟩
  price := ⟨-100, 2, by decide, by decide⟩
  size := ⟨79228162514264337593543950335, 28, by decide, by decide⟩
  side := none
  extra := [("a", .array [.object [("b", .null)], .ofInt (-9223372036854775808)])]

theorem portable_leapTick : leapTick.extra.Portable := by
  refine ⟨rfl, .object (List.forall_mem_singleton.2 (.array ?_))⟩
  simp only [List.forall_mem_cons]
  exact ⟨.object (List.forall_mem_singleton.2 .null), .int ⟨by decide, by decide⟩, nofun⟩

theorem floatFree_leapTick : (Value.object leapTick.extra).FloatFree := by
  refine .object (List.forall_mem_singleton.2 (.array ?_))
  simp only [List.forall_mem_cons]
  exact ⟨.object (List.forall_mem_singleton.2 .null), .int _, nofun⟩

/-- A bar of the same moment with the most trades. -/
def leapBar : Bar :=
  Ibkr.HistoryBar.toBar
    { date := leapTick.timestamp
      «open» := .zero
      high := leapTick.size
      low := leapTick.price
      close := .zero
      volume := .zero
      count := some (.ofNat 18446744073709551615)
      average := some leapTick.price }
    (.stock "AAPL" "SMART" "USD") .monthly

theorem records_survive_leap :
    Tick.ofText? (Value.object leapTick.members).text = some leapTick ∧
      Bar.ofText? leapBar.value.toText.toList = some leapBar ∧
      Tick.ofText? (Value.object leapTick.members.dropLast).text =
        Tick.ofText? (Value.object (leapTick.members.dropLast ++ [("extra", .object [])])).text ∧
      Bar.ofText? (Value.object leapBar.members.dropLast).text =
        Bar.ofText? (Value.object (leapBar.members.dropLast ++ [("extra", .object [])])).text := by
  have htick := Tick.exact_members portable_leapTick.exact
  have hbar : ∀ m ∈ leapBar.members, m.2.Exact :=
    Bar.exact_members (Ibkr.portable_priceMembers _).exact
  have hread {l : List (String × Value)} (h : ∀ m ∈ l, m.2.Exact) :
      Json.read? (Value.object l.dropLast).text = some (Value.object l.dropLast).tree :=
    Value.Exact.read?_text (.object fun m hm => h m ((List.dropLast_sublist l).subset hm))
  have hread' {l : List (String × Value)} (h : ∀ m ∈ l, m.2.Exact) :
      Json.read? (Value.object (l.dropLast ++ [("extra", .object [])])).text =
        some (Value.object (l.dropLast ++ [("extra", .object [])])).tree := by
    refine Value.Exact.read?_text (.object (List.forall_mem_append.2 ⟨fun m hm => ?_, ?_⟩))
    · exact h m ((List.dropLast_sublist l).subset hm)
    · exact List.forall_mem_singleton.2 (.object nofun)
  refine ⟨?_, ?_, ?_, ?_⟩
  · exact (records_survive.1 leapTick (.read (Tick.ofText?_toText portable_leapTick))
      floatFree_leapTick).1 _ (.refl _)
  · exact (records_survive.2.1 leapBar (.history _ _ _)
      (.object (List.forall_mem_singleton.2 (.string _)))).2.1
  · exact ((records_survive.2.2 _ _ _ _ (hread htick) (hread' htick)).1
      (LeftOut.of_members (.object []) (by decide))).1
  · exact ((records_survive.2.2 _ _ _ _ (hread hbar) (hread' hbar)).2
      (LeftOut.of_members (.object []) (by decide))).1

end MarketFeed
