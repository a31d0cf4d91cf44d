import LogScript.Completion.Item

/-!
The completion table of WPL.
-/

namespace LogScript.Completion

def wplRows : List Row := [
  ⟨"peek_symbol", some "type", "peek_symbol($\x7btext\x7d)",
    "peek_symbol(GET)",
    "Peek a fixed symbol without consuming input.",
    "预读匹配固定符号，不消费输入。"⟩,
  ⟨"symbol", some "type", "symbol($\x7btext\x7d)",
    "symbol(GET)",
    "Match a fixed symbol.",
    "匹配固定符号。"⟩,
  ⟨"bool", some "type", "bool:$\x7bname\x7d",
    "bool:enabled",
    "Boolean field.",
    "布尔值字段。"⟩,
  ⟨"chars", some "type", "chars:$\x7bname\x7d",
    "chars:user",
    "String field.",
    "字符串字段。"⟩,
  ⟨"digit", some "type", "digit:$\x7bname\x7d",
    "digit:status",
    "Integer field.",
    "整数字段。"⟩,
  ⟨"float", some "type", "float:$\x7bname\x7d",
    "float:cost",
    "Floating point field.",
    "浮点数字段。"⟩,
  ⟨"time_3339", some "type", "time_3339:$\x7bname\x7d",
    "time_3339:ts",
    "RFC 3339 timestamp.",
    "RFC 3339 时间。"⟩,
  ⟨"time_2822", some "type", "time_2822:$\x7bname\x7d",
    "time_2822:ts",
    "RFC 2822 timestamp.",
    "RFC 2822 时间。"⟩,
  ⟨"time/clf", some "type", "time/clf:$\x7bname\x7d",
    "time/clf:ts",
    "Common Log Format timestamp.",
    "通用日志格式时间。"⟩,
  ⟨"time_timestamp", some "type", "time_timestamp:$\x7bname\x7d",
    "time_timestamp:ts",
    "Unix timestamp.",
    "Unix 时间戳。"⟩,
  ⟨"ip", some "type", "ip:$\x7bname\x7d",
    "ip:src_ip",
    "IP address.",
    "IP 地址。"⟩,
  ⟨"ip_net", some "type", "ip_net:$\x7bname\x7d",
    "ip_net:subnet",
    "IP network.",
    "IP 网段。"⟩,
  ⟨"port", some "type", "port:$\x7bname\x7d",
    "port:dport",
    "Port number.",
    "端口号。"⟩,
  ⟨"kvarr", some "type", "kvarr($\x7bfields\x7d)",
    "kvarr(chars@key, digit@value)",
    "Key-value pair array.",
    "键值对数组。"⟩,
  ⟨"json", some "type", "json($\x7bfield\x7d)",
    "json(chars@user)",
    "JSON object; extract sub-fields by path.",
    "JSON 对象，可按路径提取子字段。"⟩,
  ⟨"array", some "type", "array/$\x7btype\x7d:$\x7bname\x7d",
    "array/digit:ports",
    "Array; the element type follows the slash.",
    "数组，元素类型写在斜杠后。"⟩,
  ⟨"http/request", some "type", "http/request:$\x7bname\x7d",
    "http/request:req",
    "HTTP request line.",
    "HTTP 请求行。"⟩,
  ⟨"http/status", some "type", "http/status:$\x7bname\x7d",
    "http/status:code",
    "HTTP status code.",
    "HTTP 状态码。"⟩,
  ⟨"http/agent", some "type", "http/agent:$\x7bname\x7d",
    "http/agent:ua",
    "HTTP User-Agent.",
    "HTTP User-Agent。"⟩,
  ⟨"http/method", some "type", "http/method:$\x7bname\x7d",
    "http/method:method",
    "HTTP method.",
    "HTTP 方法。"⟩,
  ⟨"hex", some "type", "hex:$\x7bname\x7d",
    "hex:payload",
    "Hexadecimal data.",
    "十六进制数据。"⟩,
  ⟨"base64", some "type", "base64:$\x7bname\x7d",
    "base64:payload",
    "Base64 data.",
    "Base64 数据。"⟩,
  ⟨"sn", some "type", "sn:$\x7bname\x7d",
    "sn:serial",
    "Serial number.",
    "序列号。"⟩,
  ⟨"_", some "type", "_",
    "_",
    "Skip one field.",
    "忽略一个字段。"⟩,
  ⟨"decode/base64", some "function", "decode/base64",
    "|decode/base64|",
    "Base64-decode preprocessing.",
    "Base64 解码预处理。"⟩,
  ⟨"decode/hex", some "function", "decode/hex",
    "|decode/hex|",
    "Hex-decode preprocessing.",
    "十六进制解码预处理。"⟩,
  ⟨"unquote/unescape", some "function", "unquote/unescape",
    "|unquote/unescape|",
    "Strip quotes and unescape.",
    "去引号并反转义。"⟩,
  ⟨"take", some "function", "take($\x7bfield\x7d)",
    "take(user)",
    "Select a field as the current value.",
    "选取字段作为当前值。"⟩,
  ⟨"last", some "function", "last()",
    "last()",
    "Select the last field.",
    "选取最后一个字段。"⟩,
  ⟨"f_has", some "function", "f_has($\x7bfield\x7d)",
    "f_has(user)",
    "Pass when the field exists.",
    "字段存在时通过。"⟩,
  ⟨"f_chars_has", some "function", "f_chars_has($\x7bfield\x7d, $\x7bvalue\x7d)",
    "f_chars_has(method, GET)",
    "String field equals the value.",
    "字符串字段等于给定值。"⟩,
  ⟨"f_chars_not_has", some "function", "f_chars_not_has($\x7bfield\x7d, $\x7bvalue\x7d)",
    "f_chars_not_has(method, HEAD)",
    "String field differs from the value.",
    "字符串字段不等于给定值。"⟩,
  ⟨"f_chars_in", some "function", "f_chars_in($\x7bfield\x7d, [$\x7bvalues\x7d])",
    "f_chars_in(method, [GET, POST])",
    "String field is in the list.",
    "字符串字段在给定列表中。"⟩,
  ⟨"f_digit_has", some "function", "f_digit_has($\x7bfield\x7d, $\x7bvalue\x7d)",
    "f_digit_has(status, 200)",
    "Integer field equals the value.",
    "整数字段等于给定值。"⟩,
  ⟨"f_digit_in", some "function", "f_digit_in($\x7bfield\x7d, [$\x7bvalues\x7d])",
    "f_digit_in(status, [200, 201])",
    "Integer field is in the list.",
    "整数字段在给定列表中。"⟩,
  ⟨"f_ip_in", some "function", "f_ip_in($\x7bfield\x7d, [$\x7bips\x7d])",
    "f_ip_in(src_ip, [127.0.0.1, 10.0.0.1])",
    "IP field is in the list.",
    "IP 字段在给定列表中。"⟩,
  ⟨"has", some "function", "has()",
    "has()",
    "Pass when the current value exists.",
    "当前值存在时通过。"⟩,
  ⟨"chars_has", some "function", "chars_has($\x7bvalue\x7d)",
    "chars_has(error)",
    "Current value equals the string.",
    "当前值等于给定字符串。"⟩,
  ⟨"chars_not_has", some "function", "chars_not_has($\x7bvalue\x7d)",
    "chars_not_has(debug)",
    "Current value differs from the string.",
    "当前值不等于给定字符串。"⟩,
  ⟨"chars_in", some "function", "chars_in([$\x7bvalues\x7d])",
    "chars_in([GET, POST])",
    "Current value is in the string list.",
    "当前值在给定字符串列表中。"⟩,
  ⟨"digit_has", some "function", "digit_has($\x7bvalue\x7d)",
    "digit_has(200)",
    "Current value equals the integer.",
    "当前值等于给定整数。"⟩,
  ⟨"ip_in", some "function", "ip_in([$\x7bips\x7d])",
    "ip_in([127.0.0.1])",
    "Current value is in the IP list.",
    "当前值在给定 IP 列表中。"⟩,
  ⟨"json_unescape", some "function", "json_unescape()",
    "json_unescape()",
    "JSON-unescape the current value.",
    "对当前值做 JSON 反转义。"⟩,
  ⟨"base64_decode", some "function", "base64_decode()",
    "base64_decode()",
    "Base64-decode the current value.",
    "对当前值做 Base64 解码。"⟩,
  ⟨"alt", some "keyword", "alt($\x7btypes\x7d)",
    "alt(ip, chars)",
    "Try several types in turn.",
    "依次尝试多个类型。"⟩,
  ⟨"opt", some "keyword", "opt($\x7btype\x7d)",
    "opt(digit)",
    "Optional field.",
    "可选字段。"⟩,
  ⟨"some_of", some "keyword", "some_of($\x7btypes\x7d)",
    "some_of(digit, chars)",
    "Match some of the given types.",
    "匹配若干个给定类型。"⟩,
  ⟨"seq", some "keyword", "seq($\x7btypes\x7d)",
    "seq(digit, chars)",
    "Match in sequence.",
    "按顺序匹配。"⟩,
  ⟨"order", some "keyword", "order($\x7btypes\x7d)",
    "order(digit, chars)",
    "Match in declared order.",
    "按声明顺序匹配。"⟩,
  ⟨"tag", some "keyword", "#[tag($\x7bkey\x7d: $\x7bvalue\x7d)]",
    "#[tag(source: \"nginx\")]",
    "Attach a tag to the rule.",
    "为规则附加标签。"⟩,
  ⟨"copy_raw", some "keyword", "#[copy_raw(name: $\x7bname\x7d)]",
    "#[copy_raw(name: \"raw\")]",
    "Copy the raw log into a field.",
    "保留原始日志到指定字段。"⟩,
  ⟨"include", some "keyword", "include $\x7bpath\x7d",
    "include /nginx/common",
    "Include another package.",
    "引入其他包。"⟩,
  ⟨"macro", some "keyword", "macro $\x7bname\x7d",
    "macro common",
    "Define a reusable fragment.",
    "定义可复用片段。"⟩,
  ⟨"plg_pipe", some "keyword", "plg_pipe/$\x7bname\x7d",
    "plg_pipe/dayu",
    "Invoke a plugin preprocessing pipe.",
    "调用插件预处理管道。"⟩]

end LogScript.Completion
