import Autora.Lib.Urls
import Mathlib.Data.List.Nodup

/-! The stocks and figures of the watchlist that a text names. -/

namespace Autora.Site

open Untyped Texts Urls

/-- `[A-Za-z0-9]` -/
def latin (c : Nat) : Bool := asciiLetter c || asciiDigit c

def isAscii (s : Str) : Bool := s.all (· < 128)

/-- A term somewhere in the text after `prev`, between characters that `edge` allows. -/
def standsAfter (edge : Option Nat → Option Nat → Bool) (term : Str) : Option Nat → Str → Bool
  | prev, [] => term.isEmpty && edge prev none
  | prev, c :: s =>
    (term.isPrefixOf (c :: s) && edge prev ((c :: s).drop term.length).head?) ||
      standsAfter edge term (some c) s

def stands (edge : Option Nat → Option Nat → Bool) (term text : Str) : Bool :=
  standsAfter edge term none text

/-- `term in text` -/
def occursIn (term text : Str) : Bool := (find term text).isSome

/-- `_said` -/
def said (term text : Str) : Bool :=
  if isAscii term then stands (fun prev next => !prev.any latin && !next.any latin) term text
  else occursIn term text

example : said (lit "MU") (lit "a MUST") = false ∧ said (lit "MU") (lit "MU, again") = true := by
  decide

inductive Market where
  | us | tw
  deriving DecidableEq, Repr

def Market.value : Market → Str
  | .us => lit "us"
  | .tw => lit "tw"

structure Stock where
  symbol : Str
  market : Market
  zh : Str
  en : Str
  aliases : List Str
  deriving DecidableEq, Repr

def Stock.key (s : Stock) : Str := s.market.value ++ 58 :: s.symbol

def Stock.terms (s : Stock) : List Str := s.symbol :: s.zh :: s.en :: s.aliases

def stock (symbol : String) (market : Market) (zh en : String) (aliases : List String) : Stock :=
  ⟨lit symbol, market, lit zh, lit en, aliases.map lit⟩

/-- `STOCKS` -/
def stocks : List Stock :=
  [stock "NVDA" .us "輝達" "Nvidia" ["英偉達", "NVIDIA"],
    stock "AAPL" .us "蘋果" "Apple" [],
    stock "GOOGL" .us "Alphabet" "Alphabet" ["谷歌", "Google"],
    stock "MSFT" .us "微軟" "Microsoft" [],
    stock "AMZN" .us "亞馬遜" "Amazon" [],
    stock "TSM" .us "台積電 ADR" "TSMC ADR" ["台積電", "TSMC"],
    stock "META" .us "Meta" "Meta" ["臉書", "Facebook"],
    stock "AVGO" .us "博通" "Broadcom" [],
    stock "TSLA" .us "特斯拉" "Tesla" [],
    stock "MU" .us "美光" "Micron" [],
    stock "AMD" .us "超微" "AMD" [],
    stock "QQQ" .us "那斯達克100 ETF" "Invesco QQQ" [],
    stock "VOO" .us "標普500 ETF" "Vanguard S&P 500 ETF" [],
    stock "2330" .tw "台積電" "TSMC" ["TSMC"],
    stock "2317" .tw "鴻海" "Hon Hai" ["Foxconn", "鴻海精密"],
    stock "2454" .tw "聯發科" "MediaTek" [],
    stock "2382" .tw "廣達" "Quanta" [],
    stock "2308" .tw "台達電" "Delta Electronics" [],
    stock "0050" .tw "元大台灣50" "Yuanta Taiwan 50" [],
    stock "006208" .tw "富邦台50" "Fubon Taiwan 50" []]

/-- Taiwan's come first. -/
def stocksNamed (text : Str) : List Stock :=
  let ordered := stocks.filter (·.market = .tw) ++ stocks.filter (·.market ≠ .tw)
  (ordered.filter fun s => s.terms.any fun term => said term text).take 8

structure Figure where
  key : Str
  zh : Str
  en : Str
  deriving DecidableEq, Repr

structure FigureTerms extends Figure where
  terms : List Str
  deriving DecidableEq, Repr

def figure (key zh en : String) (terms : List String) : FigureTerms :=
  ⟨⟨lit key, lit zh, lit en⟩, terms.map lit⟩

/-- `FIGURE_TERMS` -/
def figureTerms : List FigureTerms :=
  [figure "xau" "黃金" "Gold" ["黃金", "金價", "XAU", "gold", "Gold"],
    figure "wti" "西德州原油" "WTI crude" ["原油", "油價", "WTI", "crude", "Crude"],
    figure "btc" "比特幣" "Bitcoin" ["比特幣", "Bitcoin", "BTC"],
    figure "eth" "以太幣" "Ether" ["以太幣", "以太坊", "Ether", "Ethereum", "ETH"],
    figure "taiex" "加權指數" "TAIEX" ["加權指數", "台股大盤", "發行量加權", "TAIEX"],
    figure "maize" "玉米（IMF 月價）" "Corn (IMF monthly)" ["玉米", "corn", "Corn"],
    figure "soybeans" "黃豆（IMF 月價）" "Soybeans (IMF monthly)"
      ["黃豆", "大豆", "soybean", "Soybean", "soybeans", "Soybeans"],
    figure "wheat" "小麥（IMF 月價）" "Wheat (IMF monthly)" ["小麥", "wheat", "Wheat"],
    figure "us:USO" "原油 ETF" "Oil ETF" ["原油", "油價", "WTI", "crude", "Crude"],
    figure "us:CORN" "玉米 ETF" "Corn ETF" ["玉米", "corn", "Corn"],
    figure "us:SOYB" "黃豆 ETF" "Soybean ETF" ["黃豆", "大豆", "soybean", "Soybean", "soybeans"],
    figure "us:WEAT" "小麥 ETF" "Wheat ETF" ["小麥", "wheat", "Wheat"],
    figure "nasdaq" "那斯達克" "Nasdaq" ["那斯達克", "那指", "Nasdaq"],
    figure "us10y" "美國10年期公債" "US 10Y"
      ["公債殖利率", "美債殖利率", "10年期", "Treasury yield", "Treasury yields", "10-year"]]

/-- `SECTION_FIGURES` -/
def sectionFigures (name : Option Str) : List Str :=
  if name = some (lit "tw") then [lit "taiex"]
  else if name = some (lit "us") then [lit "nasdaq", lit "us10y"]
  else if name = some (lit "crypto") then [lit "btc", lit "eth"]
  else if name = some (lit "gold") then [lit "xau"]
  else if name = some (lit "commodities") then
    [lit "wti", lit "us:USO", lit "xau", lit "maize", lit "us:CORN", lit "soybeans",
      lit "us:SOYB", lit "wheat", lit "us:WEAT"]
  else []

/-- A currency against the New Taiwan dollar; `aliases` are its `CURRENCY_ALIASES`. -/
def currency (code zh en : String) (aliases : List String) : FigureTerms :=
  ⟨⟨(lit code).map asciiLower ++ lit "twd", lit zh, lit en⟩, lit zh :: aliases.map lit⟩

/-- `CHARTED` -/
def charted : List FigureTerms :=
  [currency "USD" "美金" "US dollar" ["美元", "美金", "US dollar", "U.S. dollar"],
    currency "HKD" "港幣" "Hong Kong dollar" ["港幣", "港元", "Hong Kong dollar"],
    currency "GBP" "英鎊" "British pound" [],
    currency "AUD" "澳幣" "Australian dollar" [],
    currency "CAD" "加拿大幣" "Canadian dollar" [],
    currency "SGD" "新加坡幣" "Singapore dollar" [],
    currency "CHF" "瑞士法郎" "Swiss franc" [],
    currency "JPY" "日圓" "Japanese yen" ["日圓", "日元", "日幣", "yen"],
    currency "ZAR" "南非幣" "South African rand" [],
    currency "SEK" "瑞典幣" "Swedish krona" [],
    currency "NZD" "紐元" "New Zealand dollar" [],
    currency "PHP" "菲國比索" "Philippine peso" [],
    currency "IDR" "印尼幣" "Indonesian rupiah" [],
    currency "EUR" "歐元" "Euro" ["歐元", "euro", "Euro"],
    currency "KRW" "韓元" "South Korean won" ["韓元", "韓圜"],
    currency "CNY" "人民幣" "Chinese yuan" ["人民幣", "yuan", "renminbi"]]

def figuresNamed (text : Str) (name : Option Str) : List Figure :=
  let listed := (sectionFigures name).filterMap fun key => figureTerms.find? (·.key = key)
  let listed := if name = some (lit "fx") then listed ++ charted else listed
  ((listed.filter fun f => f.terms.any fun term => said term text).map (·.toFigure)).take 8

/-- `STOCK_SECTIONS` -/
def stockSections : List Str := [lit "tw", lit "us", lit "ai"]

/-- What has a chart on the watchlist. -/
inductive Chart where
  | stock (s : Stock)
  | figure (f : Figure)
  deriving DecidableEq, Repr

def Chart.key : Chart → Str
  | .stock s => s.key
  | .figure f => f.key

/-- The charts of a text, as many as an article links. -/
def chartsNamed (name : Option Str) (text : Str) : List Chart :=
  let stocks := if name.any (· ∈ stockSections) then (stocksNamed text).map Chart.stock else []
  (stocks ++ (figuresNamed text name).map Chart.figure).take 8

def charts : List Chart :=
  stocks.map Chart.stock ++ (figureTerms ++ charted).map fun f => Chart.figure f.toFigure

theorem mem_charts_of_named {name : Option Str} {text : Str} {c : Chart}
    (h : c ∈ chartsNamed name text) : c ∈ charts := by
  rcases List.mem_append.mp (List.mem_of_mem_take h) with h | h
  · split at h
    · obtain ⟨s, hs, rfl⟩ := List.mem_map.mp h
      have hs := List.mem_of_mem_filter (List.mem_of_mem_take hs)
      refine List.mem_append_left _ (List.mem_map_of_mem ?_)
      rcases List.mem_append.mp hs with hs | hs
      · exact List.mem_of_mem_filter hs
      · exact List.mem_of_mem_filter hs
    · exact absurd h List.not_mem_nil
  · obtain ⟨f, hf, rfl⟩ := List.mem_map.mp h
    obtain ⟨t, ht, rfl⟩ := List.mem_map.mp (List.mem_of_mem_take hf)
    refine List.mem_append_right _ (List.mem_map.mpr ⟨t, ?_, rfl⟩)
    have hlisted : ∀ t ∈ (sectionFigures name).filterMap fun key => figureTerms.find? (·.key = key),
        t ∈ figureTerms := by
      intro t ht
      obtain ⟨key, -, hkey⟩ := List.mem_filterMap.mp ht
      exact List.mem_of_find?_eq_some hkey
    have ht := List.mem_of_mem_filter ht
    split at ht
    · rcases List.mem_append.mp ht with ht | ht
      · exact List.mem_append_left _ (hlisted t ht)
      · exact List.mem_append_right _ ht
    · exact List.mem_append_left _ (hlisted t ht)

/-- A chart is known by its key. -/
theorem charts_keys_nodup : (charts.map Chart.key).Nodup := by decide +kernel

theorem chart_of_key {c c' : Chart} (hc : c ∈ charts) (hc' : c' ∈ charts) (h : c.key = c'.key) :
    c = c' :=
  List.inj_on_of_nodup_map charts_keys_nodup hc hc' h

theorem charts_of_keys {l l' : List Chart} (hl : ∀ c ∈ l, c ∈ charts) (hl' : ∀ c ∈ l', c ∈ charts)
    (h : l.map Chart.key = l'.map Chart.key) : l = l' := by
  induction l generalizing l' with
  | nil => exact (List.map_eq_nil_iff.mp h.symm).symm
  | cons c l ih =>
    obtain ⟨c', l', rfl, hc, htail⟩ := List.map_eq_cons_iff.mp h.symm
    rw [List.forall_mem_cons] at hl hl'
    rw [chart_of_key hl.1 hl'.1 hc.symm, ih hl.2 hl'.2 htail.symm]

end Autora.Site
