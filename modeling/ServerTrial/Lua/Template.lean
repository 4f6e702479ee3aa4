import ServerTrial.Request.Basic

/-!
# The parts of the editor script

The script is put together from a part with shared functions, a part that gets hold of a reply, and a part that
starts the server.  Words in capitals are placeholders.
-/

namespace ServerTrial.Lua.Template

/-- Lines with a line feed behind each. -/
def ofLines (lines : List String) : String := String.join (lines.map (· ++ "\n"))

/-- Reporting, recording a reply, and the timer that ends a run. -/
def shared : String := ofLines [
  "-- Shared helpers for the lspresso-shot driver script.",
  "",
  "local uv = vim.uv or vim.loop",
  "",
  "local function report_error(msg)",
  "    local error_file = io.open('ERROR_PATH', 'a')",
  "    if error_file then",
  "        error_file:write(msg)",
  "        error_file:close()",
  "    end",
  "end",
  "",
  "local function report_log(msg)",
  "    local log_file = io.open('LOG_PATH', 'a')",
  "    if log_file then",
  "        log_file:write(msg)",
  "        log_file:close()",
  "    end",
  "end",
  "",
  "-- Messages sent through vim.notify usually explain why a run went wrong",
  "local messages = \x7b\x7d",
  "local original_notify = vim.notify",
  "vim.notify = function(message, log_level, opts)",
  "    table.insert(messages, message)",
  "    return original_notify(message, log_level, opts)",
  "end",
  "",
  "local function exit()",
  "    for _, message in ipairs(messages) do",
  "        report_error(tostring(message) .. '\\n')",
  "    end",
  "    vim.cmd('qa!')",
  "end",
  "",
  "local function touch(path)",
  "    local file, err = io.open(path, 'w')",
  "    if not file then",
  "        report_error('Could not open ' .. path .. ': ' .. tostring(err) .. '\\n')",
  "        return false",
  "    end",
  "    file:write('')",
  "    file:close()",
  "    return true",
  "end",
  "",
  "local function mark_empty_file()",
  "    if not touch('EMPTY_PATH') then",
  "        exit()",
  "    end",
  "end",
  "",
  "local function write_results(value)",
  "    local results_file, err = io.open('RESULTS_FILE', 'w')",
  "    if not results_file then",
  "        report_error('Could not open results file: ' .. tostring(err) .. '\\n')",
  "        exit()",
  "        return",
  "    end",
  "    results_file:write(vim.json.encode(value, \x7b escape_slash = true \x7d))",
  "    results_file:close()",
  "end",
  "",
  "local function is_empty_result(result)",
  "    return result == nil or result == vim.NIL",
  "end",
  "",
  "-- Writes the first reply of a `buf_request_sync` call, or the empty marker",
  "local function record_response(responses, err)",
  "    if err then",
  "        report_error('REQUEST_METHOD request failed: ' .. tostring(err) .. '\\n')",
  "        return",
  "    end",
  "    if not responses then",
  "        report_log('No REQUEST_METHOD response returned\\n')",
  "        mark_empty_file()",
  "        return",
  "    end",
  "    local _, response = next(responses)",
  "    if response and response.err then",
  "        report_error('REQUEST_METHOD returned an error: ' .. vim.inspect(response.err) .. '\\n')",
  "    elseif response and not is_empty_result(response.result) then",
  "        write_results(response.result)",
  "    else",
  "        report_log('Empty REQUEST_METHOD response: ' .. vim.inspect(responses) .. '\\n')",
  "        mark_empty_file()",
  "    end",
  "end",
  "",
  "local function timeout_exit()",
  "    report_error('Timeout of TIMEOUT_MSms exceeded\\n')",
  "    touch('TIMEOUT_PATH')",
  "    exit()",
  "end",
  "",
  "local capabilities = vim.lsp.protocol.make_client_capabilities()",
  "capabilities.experimental = \x7b",
  "    commands = \x7b",
  "        commands = \x7b",
  "            COMMANDS",
  "        \x7d,",
  "    \x7d,",
  "\x7d",
  "",
  "if vim.lsp.log.set_format_func then",
  "    vim.lsp.log.set_format_func(function(msg)",
  "        report_log('LSP LOG: ' .. msg .. '\\n')",
  "        return nil",
  "    end)",
  "end",
  "",
  "report_log('Workspace root: ROOT_PATH\\n')",
  "",
  "local timer, timer_err = uv.new_timer()",
  "if not timer then",
  "    report_log('Failed to create timeout timer: ' .. tostring(timer_err) .. '\\n')",
  "else",
  "    timer:start(TIMEOUT_MS, 0, vim.schedule_wrap(timeout_exit))",
  "end",
  ""]

/-- Sends the request and records the reply. -/
def ask : String := ofLines [
  "",
  "local progress_count = 0",
  "",
  "local function check_progress_result()",
  "    progress_count = progress_count + 1",
  "    if progress_count ~= PROGRESS_THRESHOLD then",
  "        report_log(tostring(progress_count) .. ' < ' .. tostring(PROGRESS_THRESHOLD) .. '\\n')",
  "        return",
  "    end",
  "",
  "    local params = \x7b\x7d",
  "PARAM_ASSIGN",
  "",
  "    report_log('Params: ' .. vim.inspect(params) .. '\\n')",
  "    report_log('Issuing REQUEST_METHOD request (attempt ' .. tostring(progress_count) .. ')\\n')",
  "    local responses, err = vim.lsp.buf_request_sync(0, 'REQUEST_METHOD', params, TIMEOUT_MS)",
  "    record_response(responses, err)",
  "    exit()",
  "end"]

/-- Sends the request, or lets the editor perform it and records the buffer. -/
def askOrAct : String := ofLines [
  "",
  "local progress_count = 0",
  "",
  "-- In state mode the buffer text is recorded after the edit-applying function",
  "-- has run; otherwise the raw reply to the request is recorded.",
  "local function check_progress_result()",
  "    progress_count = progress_count + 1",
  "    if progress_count ~= PROGRESS_THRESHOLD then",
  "        report_log(tostring(progress_count) .. ' < ' .. tostring(PROGRESS_THRESHOLD) .. '\\n')",
  "        return",
  "    end",
  "",
  "    local params = \x7b\x7d",
  "PARAM_ASSIGN",
  "",
  "    report_log('Params: ' .. vim.inspect(params) .. '\\n')",
  "    if INVOKE_ACTION then",
  "        report_log('Invoking REQUEST_METHOD (attempt ' .. tostring(progress_count) .. ')\\n')",
  "        local invoke = INVOKE_FN",
  "        invoke(params)",
  "        local lines = vim.api.nvim_buf_get_lines(0, 0, -1, true)",
  "        write_results(table.concat(lines, '\\n'))",
  "    else",
  "        report_log('Issuing REQUEST_METHOD request (attempt ' .. tostring(progress_count) .. ')\\n')",
  "        local responses, err = vim.lsp.buf_request_sync(0, 'REQUEST_METHOD', params, TIMEOUT_MS)",
  "        record_response(responses, err)",
  "    end",
  "    exit()",
  "end"]

/-- Asks for all semantic tokens and then for the changes since. -/
def askTwice : String := ofLines [
  "",
  "local progress_count = 0",
  "",
  "-- A delta needs a previous result id, so a full request is issued first",
  "local function check_progress_result()",
  "    progress_count = progress_count + 1",
  "    if progress_count ~= PROGRESS_THRESHOLD then",
  "        report_log(tostring(progress_count) .. ' < ' .. tostring(PROGRESS_THRESHOLD) .. '\\n')",
  "        return",
  "    end",
  "",
  "    local params = \x7b\x7d",
  "PARAM_ASSIGN",
  "",
  "    report_log('Issuing textDocument/semanticTokens/full request (attempt ' .. tostring(progress_count) .. ')\\n')",
  "    local full, full_err = vim.lsp.buf_request_sync(0, 'textDocument/semanticTokens/full', params, TIMEOUT_MS)",
  "    if full_err then",
  "        report_error('textDocument/semanticTokens/full request failed: ' .. tostring(full_err) .. '\\n')",
  "        exit()",
  "        return",
  "    end",
  "    local _, full_response = next(full or \x7b\x7d)",
  "    if not full_response or is_empty_result(full_response.result) then",
  "        report_log('Empty semantic tokens full result: ' .. vim.inspect(full) .. '\\n')",
  "        mark_empty_file()",
  "        exit()",
  "        return",
  "    end",
  "    local result_id = full_response.result.resultId",
  "    if is_empty_result(result_id) then",
  "        report_error('nil resultId returned\\n')",
  "        exit()",
  "        return",
  "    end",
  "",
  "    assert(params.previousResultId == nil, 'params.previousResultId is already set')",
  "    params.previousResultId = result_id",
  "    report_log('Issuing REQUEST_METHOD request\\n')",
  "    local responses, err = vim.lsp.buf_request_sync(0, 'REQUEST_METHOD', params, TIMEOUT_MS)",
  "    record_response(responses, err)",
  "    exit()",
  "end"]

/-- Records the diagnostics that the server publishes. -/
def collect : String := ofLines [
  "",
  "local progress_count = 0",
  "",
  "-- Diagnostics are pushed by the server, so results are collected whenever",
  "-- the buffer's diagnostics change rather than by issuing a request.",
  "vim.api.nvim_create_autocmd('DiagnosticChanged', \x7b",
  "    callback = function(_)",
  "        progress_count = progress_count + 1",
  "        if progress_count ~= PROGRESS_THRESHOLD then",
  "            report_log(tostring(progress_count) .. ' < ' .. tostring(PROGRESS_THRESHOLD) .. '\\n')",
  "            return",
  "        end",
  "        report_log('Collecting diagnostics (attempt ' .. tostring(progress_count) .. ')\\n')",
  "        local diagnostics = \x7b\x7d",
  "        for _, diagnostic in ipairs(vim.diagnostic.get(0)) do",
  "            local lsp_diagnostic = diagnostic.user_data and diagnostic.user_data.lsp",
  "            if lsp_diagnostic then",
  "                table.insert(diagnostics, lsp_diagnostic)",
  "            end",
  "        end",
  "        if #diagnostics == 0 then",
  "            mark_empty_file()",
  "        else",
  "            write_results(diagnostics)",
  "        end",
  "        exit()",
  "    end,",
  "\x7d)"]

/-- Starts the server for files with the extension of the source. -/
def attach : String := ofLines [
  "",
  "vim.filetype.add(\x7b",
  "    extension = \x7b",
  "        ['FILE_EXTENSION'] = 'lspresso_shot',",
  "    \x7d,",
  "\x7d)",
  "",
  "vim.api.nvim_create_autocmd('FileType', \x7b",
  "    pattern = 'lspresso_shot',",
  "    callback = function(ev)",
  "        if vim.bo[ev.buf].buftype == 'nofile' then",
  "            report_error('Invalid buffer type opened\\n')",
  "            vim.cmd('qa!')",
  "        end",
  "        vim.lsp.start(\x7b",
  "            name = 'lspresso_shot',",
  "            cmd = \x7b 'EXECUTABLE_PATH' \x7d,",
  "            root_dir = 'PARENT_PATH',",
  "            capabilities = capabilities,",
  "            on_attach = function(client, _)",
  "                LSP_ACTION",
  "            end,",
  "        \x7d)",
  "    end,",
  "\x7d)"]

/-- The part that gets hold of a reply. -/
def ofFragment : Fragment → String
  | .ask => ask
  | .askOrAct => askOrAct
  | .askTwice => askTwice
  | .collect => collect

/-- The script before anything is filled in. -/
def whole (f : Fragment) : String := shared ++ ofFragment f ++ attach

end ServerTrial.Lua.Template
