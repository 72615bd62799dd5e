/-!
# Symbols

A symbol table says which commands stand for a symbol and how Typst spells it. A
command is named without its backslash. The standard table holds, by class, the
commands that are known without a table of one's own; no name occurs twice in it.
-/

namespace MathMarkup.Symbol

/-- The spelling of each known symbol; the first entry of a name counts. -/
abbrev Table := List (String × String)

namespace Table

/-- The spelling of a symbol. -/
def find? (table : Table) (name : String) : Option String :=
  table.lookup name

/-- The table has an entry for the name. -/
def knows (table : Table) (name : String) : Bool :=
  (table.find? name).isSome

end Table

/-- Greek letters. The two languages differ on which of two letter forms is the plain one. -/
def greekLetters : Table :=
  [("alpha", "alpha"), ("beta", "beta"), ("gamma", "gamma"), ("delta", "delta"), ("zeta", "zeta"),
   ("eta", "eta"), ("theta", "theta"), ("iota", "iota"), ("kappa", "kappa"), ("lambda", "lambda"),
   ("mu", "mu"), ("nu", "nu"), ("xi", "xi"), ("omicron", "omicron"), ("pi", "pi"), ("rho", "rho"),
   ("sigma", "sigma"), ("tau", "tau"), ("upsilon", "upsilon"), ("chi", "chi"), ("psi", "psi"),
   ("omega", "omega"), ("Gamma", "Gamma"), ("Delta", "Delta"), ("Theta", "Theta"),
   ("Lambda", "Lambda"), ("Xi", "Xi"), ("Pi", "Pi"), ("Sigma", "Sigma"), ("Upsilon", "Upsilon"),
   ("Phi", "Phi"), ("Psi", "Psi"), ("Omega", "Omega"), ("epsilon", "epsilon.alt"),
   ("varepsilon", "epsilon"), ("phi", "phi.alt"), ("varphi", "phi"), ("vartheta", "theta.alt"),
   ("varpi", "pi.alt"), ("varrho", "rho.alt"), ("varsigma", "sigma.alt"), ("varkappa", "kappa.alt"),
   ("digamma", "digamma")]

/-- Binary and unary operators. -/
def operators : Table :=
  [("pm", "plus.minus"), ("mp", "minus.plus"), ("times", "times"), ("div", "div"),
   ("cdot", "dot.op"), ("cdotp", "dot.c"), ("centerdot", "dot.op"), ("ast", "ast.op"),
   ("star", "star.op"), ("circ", "circle.small"), ("bigcirc", "circle.big"), ("bullet", "bullet"),
   ("setminus", "without"), ("smallsetminus", "without"), ("oplus", "plus.circle"),
   ("ominus", "minus.circle"), ("otimes", "times.circle"), ("odot", "dot.circle"),
   ("boxplus", "plus.square"), ("boxminus", "minus.square"), ("boxtimes", "times.square"),
   ("boxdot", "dot.square"), ("circledast", "ast.circle"), ("cup", "union"), ("cap", "sect"),
   ("uplus", "union.plus"), ("sqcup", "union.sq"), ("sqcap", "sect.sq"), ("wedge", "and"),
   ("land", "and"), ("vee", "or"), ("lor", "or"), ("neg", "not"), ("lnot", "not"), ("wr", "wreath"),
   ("amalg", "product.co"), ("dagger", "dagger"), ("ddagger", "dagger.double"), ("dag", "dagger"),
   ("ddag", "dagger.double"), ("bowtie", "join")]

/-- Operators that take limits. -/
def largeOperators : Table :=
  [("sum", "sum"), ("prod", "product"), ("coprod", "product.co"), ("int", "integral"),
   ("iint", "integral.double"), ("iiint", "integral.triple"), ("iiiint", "integral.quad"),
   ("oint", "integral.cont"), ("oiint", "integral.surf"), ("oiiint", "integral.vol"),
   ("bigcup", "union.big"), ("bigcap", "sect.big"), ("bigvee", "or.big"), ("bigwedge", "and.big"),
   ("bigoplus", "xor.big"), ("bigotimes", "times.circle.big"), ("bigodot", "dot.circle.big"),
   ("biguplus", "union.plus.big"), ("bigsqcup", "union.sq.big")]

/-- Relations. -/
def relations : Table :=
  [("neq", "eq.not"), ("ne", "eq.not"), ("le", "lt.eq"), ("leq", "lt.eq"), ("ge", "gt.eq"),
   ("geq", "gt.eq"), ("leqslant", "lt.eq.slant"), ("geqslant", "gt.eq.slant"), ("ll", "lt.double"),
   ("gg", "gt.double"), ("lll", "lt.triple"), ("ggg", "gt.triple"), ("lesssim", "lt.tilde"),
   ("gtrsim", "gt.tilde"), ("nless", "lt.not"), ("ngtr", "gt.not"), ("nleq", "lt.eq.not"),
   ("ngeq", "gt.eq.not"), ("prec", "prec"), ("succ", "succ"), ("preceq", "prec.eq"),
   ("succeq", "succ.eq"), ("sim", "tilde.op"), ("simeq", "tilde.eq"), ("cong", "tilde.equiv"),
   ("approx", "approx"), ("approxeq", "approx.eq"), ("asymp", "≍"), ("equiv", "equiv"),
   ("doteq", "dot(eq)"), ("triangleq", "eq.delta"), ("coloneqq", "colon.eq"),
   ("eqqcolon", "eq.colon"), ("propto", "prop"), ("varpropto", "prop"), ("in", "in"),
   ("notin", "in.not"), ("ni", "in.rev"), ("owns", "in.rev"), ("subset", "subset"),
   ("supset", "supset"), ("subseteq", "subset.eq"), ("supseteq", "supset.eq"),
   ("subsetneq", "subset.neq"), ("supsetneq", "supset.neq"), ("nsubseteq", "subset.eq.not"),
   ("nsupseteq", "supset.eq.not"), ("sqsubset", "subset.sq"), ("sqsupset", "supset.sq"),
   ("sqsubseteq", "subset.eq.sq"), ("sqsupseteq", "supset.eq.sq"), ("vdash", "tack.r"),
   ("dashv", "tack.l"), ("vDash", "tack.r.double"), ("models", "models"), ("perp", "perp"),
   ("parallel", "parallel"), ("nparallel", "parallel.not"), ("mid", "divides"),
   ("nmid", "divides.not"), ("smile", "smile"), ("frown", "frown"), ("lhd", "lt.tri"),
   ("rhd", "gt.tri"), ("unlhd", "lt.tri.eq"), ("unrhd", "gt.tri.eq"), ("vartriangleleft", "lt.tri"),
   ("vartriangleright", "gt.tri"), ("trianglelefteq", "lt.tri.eq"),
   ("trianglerighteq", "gt.tri.eq")]

/-- Arrows and harpoons. -/
def arrows : Table :=
  [("to", "arrow.r"), ("rightarrow", "arrow.r"), ("gets", "arrow.l"), ("leftarrow", "arrow.l"),
   ("uparrow", "arrow.t"), ("downarrow", "arrow.b"), ("leftrightarrow", "arrow.l.r"),
   ("updownarrow", "arrow.t.b"), ("Rightarrow", "arrow.r.double"), ("Leftarrow", "arrow.l.double"),
   ("Leftrightarrow", "arrow.l.r.double"), ("Uparrow", "arrow.t.double"),
   ("Downarrow", "arrow.b.double"), ("Updownarrow", "arrow.t.b.double"),
   ("longrightarrow", "arrow.r.long"), ("longleftarrow", "arrow.l.long"),
   ("longleftrightarrow", "arrow.l.r.long"), ("Longrightarrow", "arrow.r.double.long"),
   ("Longleftarrow", "arrow.l.double.long"), ("Longleftrightarrow", "arrow.l.r.double.long"),
   ("implies", "arrow.r.double.long"), ("impliedby", "arrow.l.double.long"),
   ("iff", "arrow.l.r.double.long"), ("mapsto", "arrow.r.bar"), ("longmapsto", "arrow.r.long.bar"),
   ("hookrightarrow", "arrow.r.hook"), ("hookleftarrow", "arrow.l.hook"),
   ("leadsto", "arrow.r.squiggly"), ("nearrow", "arrow.tr"), ("nwarrow", "arrow.tl"),
   ("searrow", "arrow.br"), ("swarrow", "arrow.bl"), ("twoheadrightarrow", "arrow.r.twohead"),
   ("twoheadleftarrow", "arrow.l.twohead"), ("rightarrowtail", "arrow.r.tail"),
   ("leftarrowtail", "arrow.l.tail"), ("looparrowright", "arrow.r.loop"),
   ("looparrowleft", "arrow.l.loop"), ("curvearrowright", "arrow.cw"),
   ("curvearrowleft", "arrow.ccw"), ("Rrightarrow", "arrow.r.triple"),
   ("Lleftarrow", "arrow.l.triple"), ("nrightarrow", "arrow.r.not"), ("nleftarrow", "arrow.l.not"),
   ("nRightarrow", "arrow.r.double.not"), ("nLeftarrow", "arrow.l.double.not"),
   ("nleftrightarrow", "arrow.l.r.not"), ("nLeftrightarrow", "arrow.l.r.double.not"),
   ("rightrightarrows", "arrows.rr"), ("leftleftarrows", "arrows.ll"),
   ("leftrightarrows", "arrows.lr"), ("rightleftarrows", "arrows.rl"),
   ("rightharpoonup", "harpoon.rt"), ("rightharpoondown", "harpoon.rb"),
   ("leftharpoonup", "harpoon.lt"), ("leftharpoondown", "harpoon.lb"),
   ("upharpoonleft", "harpoon.tl"), ("upharpoonright", "harpoon.tr"),
   ("downharpoonleft", "harpoon.bl"), ("downharpoonright", "harpoon.br"),
   ("rightleftharpoons", "harpoons.rtlb"), ("leftrightharpoons", "harpoons.ltrb"),
   ("multimap", "multimap")]

/-- Fences. Pairs of the floor and ceiling glyphs become calls when they are written. -/
def delimiters : Table :=
  [("langle", "angle.l"), ("rangle", "angle.r"), ("lbrace", "brace.l"), ("rbrace", "brace.r"),
   ("lbrack", "bracket.l"), ("rbrack", "bracket.r"), ("vert", "bar.v"), ("lvert", "bar.v"),
   ("rvert", "bar.v"), ("Vert", "bar.v.double"), ("lVert", "bar.v.double"),
   ("rVert", "bar.v.double"), ("lfloor", "⌊"), ("rfloor", "⌋"), ("lceil", "⌈"), ("rceil", "⌉")]

/-- Signs of no other class. -/
def signs : Table :=
  [("infty", "infinity"), ("nabla", "nabla"), ("partial", "diff"), ("forall", "forall"),
   ("exists", "exists"), ("nexists", "exists.not"), ("emptyset", "nothing"),
   ("varnothing", "nothing"), ("aleph", "aleph"), ("beth", "beth"), ("gimel", "gimel"),
   ("daleth", "daleth"), ("ell", "ell"), ("hbar", "planck.reduce"), ("hslash", "planck.reduce"),
   ("Re", "Re"), ("Im", "Im"), ("imath", "dotless.i"), ("jmath", "dotless.j"), ("angle", "angle"),
   ("measuredangle", "angle.arc"), ("sphericalangle", "angle.spheric"), ("top", "top"),
   ("bot", "bot"), ("complement", "complement"), ("mho", "Omega.inv"), ("therefore", "therefore"),
   ("because", "because"), ("checkmark", "checkmark"), ("square", "square.stroked"),
   ("Box", "square.stroked"), ("blacksquare", "square.filled"),
   ("diamond", "diamond.stroked.small"), ("Diamond", "diamond.stroked"),
   ("lozenge", "lozenge.stroked"), ("blacklozenge", "lozenge.filled"), ("bigstar", "star.filled"),
   ("triangle", "triangle.stroked.t"), ("bigtriangleup", "triangle.stroked.t"),
   ("bigtriangledown", "triangle.stroked.b"), ("clubsuit", "suit.club"),
   ("diamondsuit", "suit.diamond"), ("heartsuit", "suit.heart"), ("spadesuit", "suit.spade"),
   ("sharp", "sharp"), ("flat", "flat"), ("natural", "natural"), ("backslash", "backslash"),
   ("colon", "colon"), ("prime", "'"), ("degree", "degree"), ("copyright", "copyright"),
   ("pounds", "pound"), ("yen", "yen"), ("S", "section"), ("P", "pilcrow"), ("dots", "dots.h"),
   ("ldots", "dots.h"), ("cdots", "dots.h.c"), ("vdots", "dots.v"), ("ddots", "dots.down"),
   ("iddots", "dots.up")]

/-- Spaces, and switches of the layout that have no counterpart and write nothing. -/
def spacing : Table :=
  [("quad", "quad"), ("qquad", "wide"), ("thinspace", "thin"), ("medspace", "med"),
   ("thickspace", "thick"), ("enspace", "space.en"), (" ", "space"), (":", "med"), (";", "thick"),
   ("!", "#h(-0.17em)"), ("nonumber", ""), ("notag", ""), ("displaystyle", ""), ("textstyle", ""),
   ("limits", ""), ("nolimits", ""), ("big", ""), ("Big", ""), ("bigg", ""), ("Bigg", ""),
   ("bigl", ""), ("bigr", ""), ("Bigl", ""), ("Bigr", ""), ("biggl", ""), ("biggr", ""),
   ("Biggl", ""), ("Biggr", ""), ("middle", "")]

/-- Functions that have the same name in both languages. -/
def sharedFunctions : List String :=
  ["arccos", "arcsin", "arctan", "arg", "cos", "cosh", "cot", "coth", "csc", "deg", "det", "dim",
   "exp", "gcd", "hom", "inf", "ker", "lg", "lim", "liminf", "limsup", "ln", "log", "max", "min",
   "Pr", "sec", "sin", "sinh", "sup", "tan", "tanh", "mod"]

/-- Named functions. -/
def functions : Table :=
  sharedFunctions.map (fun name => (name, name)) ++ [("bmod", "mod")]

/-- Commands with arguments: roots, fractions, accents and alphabets; and the
alphabet switch that applies to what follows it. -/
def constructs : Table :=
  [("sqrt", "sqrt"), ("frac", "frac"), ("dfrac", "frac"), ("tfrac", "frac"), ("binom", "binom"),
   ("dbinom", "binom"), ("tbinom", "binom"), ("hat", "hat"), ("widehat", "hat"), ("tilde", "tilde"),
   ("widetilde", "tilde"), ("bar", "macron"), ("overline", "overline"), ("underline", "underline"),
   ("overbrace", "overbrace"), ("underbrace", "underbrace"), ("vec", "arrow"), ("dot", "dot"),
   ("ddot", "dot.double"), ("mathbb", "bb"), ("mathbf", "bold"), ("boldsymbol", "bold"),
   ("pmb", "bold"), ("mathcal", "cal"), ("mathscr", "cal"), ("mathfrak", "frak"),
   ("mathit", "italic"), ("mathrm", "upright"), ("mathsf", "sans"), ("mathtt", "mono"),
   ("rm", "upright")]

/-- All standard symbols. -/
def standard : Table :=
  greekLetters ++ operators ++ largeOperators ++ relations ++ arrows ++ delimiters ++ signs
    ++ spacing ++ functions ++ constructs

end MathMarkup.Symbol
