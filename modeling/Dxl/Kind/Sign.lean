/-! Operators and punctuation, with the characters each is written with. -/

namespace Dxl

/-- An operator or punctuation mark, each named for its characters. -/
inductive Sign where
  | leftParen | rightParen | leftBrace | rightBrace | leftBracket | rightBracket | semicolon
  | comma | question | tilde | backslash | ampersand | ampersandEqual | ampersandAmpersand
  | bang | bangEqual | pipe | pipeEqual | pipePipe | caret | caretCaret | caretEqual | colon
  | colonEqual | colonColon | equal | equalEqual | equalArrow | slash | slashEqual | greater
  | greaterEqual | greaterGreater | greaterGreaterEqual | less | lessEqual | lessGreater
  | lessLess | lessLessEqual | lessMinus | minus | minusEqual | minusMinus | minusArrow
  | percent | percentEqual | dot | dotDot | plus | plusPlus | plusEqual | star | starEqual
deriving DecidableEq

/-- The characters that spell a sign. -/
def Sign.spelling : Sign → List Char
  | .leftParen => ['(']
  | .rightParen => [')']
  | .leftBrace => ['{']
  | .rightBrace => ['}']
  | .leftBracket => ['[']
  | .rightBracket => [']']
  | .semicolon => [';']
  | .comma => [',']
  | .question => ['?']
  | .tilde => ['~']
  | .backslash => ['\\']
  | .ampersand => ['&']
  | .ampersandEqual => ['&', '=']
  | .ampersandAmpersand => ['&', '&']
  | .bang => ['!']
  | .bangEqual => ['!', '=']
  | .pipe => ['|']
  | .pipeEqual => ['|', '=']
  | .pipePipe => ['|', '|']
  | .caret => ['^']
  | .caretCaret => ['^', '^']
  | .caretEqual => ['^', '=']
  | .colon => [':']
  | .colonEqual => [':', '=']
  | .colonColon => [':', ':']
  | .equal => ['=']
  | .equalEqual => ['=', '=']
  | .equalArrow => ['=', '>']
  | .slash => ['/']
  | .slashEqual => ['/', '=']
  | .greater => ['>']
  | .greaterEqual => ['>', '=']
  | .greaterGreater => ['>', '>']
  | .greaterGreaterEqual => ['>', '>', '=']
  | .less => ['<']
  | .lessEqual => ['<', '=']
  | .lessGreater => ['<', '>']
  | .lessLess => ['<', '<']
  | .lessLessEqual => ['<', '<', '=']
  | .lessMinus => ['<', '-']
  | .minus => ['-']
  | .minusEqual => ['-', '=']
  | .minusMinus => ['-', '-']
  | .minusArrow => ['-', '>']
  | .percent => ['%']
  | .percentEqual => ['%', '=']
  | .dot => ['.']
  | .dotDot => ['.', '.']
  | .plus => ['+']
  | .plusPlus => ['+', '+']
  | .plusEqual => ['+', '=']
  | .star => ['*']
  | .starEqual => ['*', '=']

/-- The name a sign has in tree dumps. -/
def Sign.name : Sign → String
  | .leftParen => "LPAREN"
  | .rightParen => "RPAREN"
  | .leftBrace => "LCURLY"
  | .rightBrace => "RCURLY"
  | .leftBracket => "LBRACKET"
  | .rightBracket => "RBRACKET"
  | .semicolon => "SEMICOLON"
  | .comma => "COMMA"
  | .question => "QMARK"
  | .tilde => "TILDE"
  | .backslash => "BSLASH"
  | .ampersand => "AMPR"
  | .ampersandEqual => "AMPREQUAL"
  | .ampersandAmpersand => "AMPRAMPR"
  | .bang => "BANG"
  | .bangEqual => "BANGEQUAL"
  | .pipe => "BAR"
  | .pipeEqual => "BAREQUAL"
  | .pipePipe => "BARBAR"
  | .caret => "CARET"
  | .caretCaret => "CARETCARET"
  | .caretEqual => "CARETEQUAL"
  | .colon => "COLON"
  | .colonEqual => "COLONEQUAL"
  | .colonColon => "COLONCOLON"
  | .equal => "EQUAL"
  | .equalEqual => "EQUALEQUAL"
  | .equalArrow => "EQUALGREAT"
  | .slash => "FSLASH"
  | .slashEqual => "FSLASHEQUAL"
  | .greater => "GREAT"
  | .greaterEqual => "GREATEQUAL"
  | .greaterGreater => "GREATGREAT"
  | .greaterGreaterEqual => "GREATGREATEQUAL"
  | .less => "LESS"
  | .lessEqual => "LESSEQUAL"
  | .lessGreater => "LESSGREAT"
  | .lessLess => "LESSLESS"
  | .lessLessEqual => "LESSLESSEQUAL"
  | .lessMinus => "LESSMINUS"
  | .minus => "MINUS"
  | .minusEqual => "MINUSEQUAL"
  | .minusMinus => "MINUSMINUS"
  | .minusArrow => "MINUSGREAT"
  | .percent => "PERCENT"
  | .percentEqual => "PERCENTEQUAL"
  | .dot => "PERIOD"
  | .dotDot => "PERIODPERIOD"
  | .plus => "PLUS"
  | .plusPlus => "PLUSPLUS"
  | .plusEqual => "PLUSEQUAL"
  | .star => "STAR"
  | .starEqual => "STAREQUAL"

/-- Every sign, in the order of the vocabulary. -/
def Sign.all : List Sign :=
  [.leftParen, .rightParen, .leftBrace, .rightBrace, .leftBracket, .rightBracket, .semicolon,
   .comma, .question, .tilde, .backslash, .ampersand, .ampersandEqual, .ampersandAmpersand,
   .bang, .bangEqual, .pipe, .pipeEqual, .pipePipe, .caret, .caretCaret, .caretEqual, .colon,
   .colonEqual, .colonColon, .equal, .equalEqual, .equalArrow, .slash, .slashEqual, .greater,
   .greaterEqual, .greaterGreater, .greaterGreaterEqual, .less, .lessEqual, .lessGreater,
   .lessLess, .lessLessEqual, .lessMinus, .minus, .minusEqual, .minusMinus, .minusArrow,
   .percent, .percentEqual, .dot, .dotDot, .plus, .plusPlus, .plusEqual, .star, .starEqual]

/-- The sign with exactly the given spelling. -/
def Sign.ofSpelling? (chars : List Char) : Option Sign :=
  -- No two signs are spelled alike, so the first hit is the only one.
  Sign.all.find? (fun sign => sign.spelling == chars)

/-- The longest sign which begins the given characters. -/
def Sign.longest? (chars : List Char) : Option Sign :=
  -- No sign is longer than three characters.
  ofSpelling? (chars.take 3) <|> ofSpelling? (chars.take 2) <|> ofSpelling? (chars.take 1)

end Dxl
