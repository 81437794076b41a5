import PerlOutline.Syntax.Kind

/-!
# Labels of kinds

Messages, diagnostics and tree listings name a kind by its label, in capitals with underscores.
-/

namespace PerlOutline.Syntax.Kind

/-- The label by which listings and messages name a kind. -/
def label : Kind → String
  | .whitespace => "WHITESPACE"
  | .lineComment => "LINE_COMMENT"
  | .pod => "POD"
  | .dataSection => "DATA_SECTION"
  | .ident => "IDENT"
  | .number => "NUMBER"
  | .string => "STRING"
  | .qwList => "QW_LIST"
  | .scalarName => "SCALAR_NAME"
  | .arrayName => "ARRAY_NAME"
  | .hashName => "HASH_NAME"
  | .arrayLastIndex => "ARRAY_LAST_INDEX"
  | .lBrace => "L_BRACE"
  | .rBrace => "R_BRACE"
  | .lBracket => "L_BRACKET"
  | .rBracket => "R_BRACKET"
  | .lParen => "L_PAREN"
  | .rParen => "R_PAREN"
  | .semicolon => "SEMICOLON"
  | .colon => "COLON"
  | .comma => "COMMA"
  | .fatComma => "FAT_COMMA"
  | .arrow => "ARROW"
  | .dot => "DOT"
  | .dotDot => "DOT_DOT"
  | .question => "QUESTION"
  | .dollar => "DOLLAR"
  | .atSign => "AT"
  | .eq => "EQ"
  | .plusEq => "PLUS_EQ"
  | .minusEq => "MINUS_EQ"
  | .starEq => "STAR_EQ"
  | .slashEq => "SLASH_EQ"
  | .dotEq => "DOT_EQ"
  | .pipePipeEq => "PIPE_PIPE_EQ"
  | .slashSlashEq => "SLASH_SLASH_EQ"
  | .ampAmpEq => "AMP_AMP_EQ"
  | .eqEq => "EQ_EQ"
  | .bangEq => "BANG_EQ"
  | .lt => "LT"
  | .gt => "GT"
  | .ltEq => "LT_EQ"
  | .gtEq => "GT_EQ"
  | .spaceship => "SPACESHIP"
  | .eqTilde => "EQ_TILDE"
  | .bangTilde => "BANG_TILDE"
  | .plus => "PLUS"
  | .minus => "MINUS"
  | .star => "STAR"
  | .slash => "SLASH"
  | .percent => "PERCENT"
  | .starStar => "STAR_STAR"
  | .plusPlus => "PLUS_PLUS"
  | .minusMinus => "MINUS_MINUS"
  | .bang => "BANG"
  | .backslash => "BACKSLASH"
  | .ampAmp => "AMP_AMP"
  | .pipePipe => "PIPE_PIPE"
  | .slashSlash => "SLASH_SLASH"
  | .amp => "AMP"
  | .pipe => "PIPE"
  | .caret => "CARET"
  | .tilde => "TILDE"
  | .myKw => "MY_KW"
  | .ourKw => "OUR_KW"
  | .localKw => "LOCAL_KW"
  | .stateKw => "STATE_KW"
  | .subKw => "SUB_KW"
  | .packageKw => "PACKAGE_KW"
  | .useKw => "USE_KW"
  | .noKw => "NO_KW"
  | .ifKw => "IF_KW"
  | .unlessKw => "UNLESS_KW"
  | .elsifKw => "ELSIF_KW"
  | .elseKw => "ELSE_KW"
  | .whileKw => "WHILE_KW"
  | .untilKw => "UNTIL_KW"
  | .forKw => "FOR_KW"
  | .foreachKw => "FOREACH_KW"
  | .returnKw => "RETURN_KW"
  | .andKw => "AND_KW"
  | .orKw => "OR_KW"
  | .notKw => "NOT_KW"
  | .xorKw => "XOR_KW"
  | .eqKw => "EQ_KW"
  | .neKw => "NE_KW"
  | .ltKw => "LT_KW"
  | .gtKw => "GT_KW"
  | .leKw => "LE_KW"
  | .geKw => "GE_KW"
  | .cmpKw => "CMP_KW"
  | .sourceFile => "SOURCE_FILE"
  | .block => "BLOCK"
  | .packageStatement => "PACKAGE_STATEMENT"
  | .useStatement => "USE_STATEMENT"
  | .subDefinition => "SUB_DEFINITION"
  | .prototype => "PROTOTYPE"
  | .ifStatement => "IF_STATEMENT"
  | .elsifClause => "ELSIF_CLAUSE"
  | .elseClause => "ELSE_CLAUSE"
  | .condition => "CONDITION"
  | .whileStatement => "WHILE_STATEMENT"
  | .forStatement => "FOR_STATEMENT"
  | .returnStatement => "RETURN_STATEMENT"
  | .exprStatement => "EXPR_STATEMENT"
  | .statementModifier => "STATEMENT_MODIFIER"
  | .variableDeclaration => "VARIABLE_DECLARATION"
  | .scalarVariable => "SCALAR_VARIABLE"
  | .arrayVariable => "ARRAY_VARIABLE"
  | .hashVariable => "HASH_VARIABLE"
  | .arrayIndexVariable => "ARRAY_INDEX_VARIABLE"
  | .assignExpr => "ASSIGN_EXPR"
  | .ternaryExpr => "TERNARY_EXPR"
  | .binaryExpr => "BINARY_EXPR"
  | .unaryExpr => "UNARY_EXPR"
  | .op3PrefixExpr => "OP3_PREFIX_EXPR"
  | .op3SuffixExpr => "OP3_SUFFIX_EXPR"
  | .elementExpr => "ELEMENT_EXPR"
  | .methodCallExpr => "METHOD_CALL_EXPR"
  | .callExpr => "CALL_EXPR"
  | .argList => "ARG_LIST"
  | .listExpr => "LIST_EXPR"
  | .anonArrayExpr => "ANON_ARRAY_EXPR"
  | .anonHashExpr => "ANON_HASH_EXPR"
  | .anonSubExpr => "ANON_SUB_EXPR"
  | .derefExpr => "DEREF_EXPR"
  | .literal => "LITERAL"
  | .barewordExpr => "BAREWORD_EXPR"
  | .error => "ERROR"

instance : ToString Kind := ⟨label⟩

/-- The kind with the given label, if there is one. -/
def ofLabel? (s : String) : Option Kind :=
  all.find? (·.label == s)

end PerlOutline.Syntax.Kind
